import LijsCompiler.Proofs.Lowering.Runs
import LijsCompiler.Proofs.Node.WellFormed

/-!
# What lowering takes for granted

The constructs of a parsed program are well-formed at every depth, though each restriction is made
by one production only.  Lowering does not look again.  In particular the test of a condition is
always a comparison where the check compares: `testOf` is never asked for one without its second
operand.
-/

namespace LijsCompiler

namespace Lowering

theorem isSome_of_lowerOption {o : Options} {value : Option Node} {found : Option ESTree}
    {c c' : Context} (h : (lowerOption o value).run c = some (found, c')) :
    found.isSome = value.isSome := by
  cases value with
  | none =>
      rw [lowerOption, run_pure_eq_some] at h
      rw [h.1]
      rfl
  | some node =>
      rw [lowerOption, run_bind_eq_some] at h
      obtain ⟨e, c₁, -, h⟩ := h
      rw [run_pure_eq_some] at h
      rw [h.1]
      rfl

/-- A condition tests its first operand, and its second operand if it has one. -/
theorem exists_test_of_lowerNode {o : Options} {place : Place} {check : Check} {left : Node}
    {right : Option Node} {pass : List Node} {fail : Option (List Node)} {e : ESTree}
    {c c' : Context}
    (h : (lowerNode o place (.conditional check left right pass fail)).run c = some (e, c')) :
    ∃ l found statements alternate,
      e = .ifStatement (testOf check l found) (.blockStatement statements) alternate ∧
        found.isSome = right.isSome := by
  rw [lowerNode, run_expectStatement_bind, run_bind_eq_some] at h
  obtain ⟨l, c₁, -, h⟩ := h
  rw [run_bind_eq_some] at h
  obtain ⟨found, c₂, hright, h⟩ := h
  rw [run_bind_eq_some] at h
  obtain ⟨statements, c₃, -, h⟩ := h
  rw [run_bind_eq_some] at h
  obtain ⟨alternate, c₄, -, h⟩ := h
  rw [run_pure_eq_some] at h
  exact ⟨l, found, statements, alternate, h.1, isSome_of_lowerOption hright⟩

end Lowering

theorem Check.takesRight_eq (check : Check) : check.takesRight = (check != .present) := by
  cases check <;> rfl

/-- At every depth of a parsed program, wherever its tokens come from: an assigned value is no
assignment, a key is a name or a string, a condition has a second operand exactly if its check takes
one, and a call by an operator's name has at most one argument.  So wherever a condition is lowered,
its test is made with a second operand exactly if its check takes one. -/
theorem constructs_of_parse {ts : List Token} {program : List Node}
    (h : parse ts = .ok program) :
    (∀ name value, .assignment name value ∈ Node.walkAll program →
        value.kind ≠ .assignment) ∧
      (∀ name key, .get name key ∈ Node.walkAll program →
        key.kind = .identifier ∨ key.kind = .string) ∧
      (∀ name key value, .set name key value ∈ Node.walkAll program →
        key.kind = .identifier ∨ key.kind = .string) ∧
      (∀ check left right pass fail,
        .conditional check left right pass fail ∈ Node.walkAll program →
          right.isSome = check.takesRight ∧
            ∀ o place c e c',
              (Lowering.lowerNode o place (.conditional check left right pass fail)).run c =
                  some (e, c') →
                ∃ l found statements alternate,
                  e = .ifStatement (Lowering.testOf check l found) (.blockStatement statements)
                      alternate ∧
                    found.isSome = check.takesRight) ∧
      ∀ op args, .call (Arithmetic.name op) args ∈ Node.walkAll program → args.length ≤ 1 := by
  have hwf : ∀ node ∈ Node.walkAll program, node.wellFormedHere := Node.wellFormed_of_parse h
  refine ⟨?_, ?_, ?_, ?_, ?_⟩
  · intro name value hmem
    simpa [Node.wellFormedHere] using hwf _ hmem
  · intro name key hmem
    simpa [Node.wellFormedHere] using hwf _ hmem
  · intro name key value hmem
    simpa [Node.wellFormedHere] using hwf _ hmem
  · intro check left right pass fail hmem
    have hright : right.isSome = check.takesRight := by
      rw [Check.takesRight_eq]
      simpa [Node.wellFormedHere] using hwf _ hmem
    refine ⟨hright, ?_⟩
    intro o place c e c' hrun
    rw [← hright]
    exact Lowering.exists_test_of_lowerNode hrun
  · intro op args hmem
    have hname : op.name ∈ Arithmetic.all.map Arithmetic.name := by cases op <;> decide
    simpa [Node.wellFormedHere, hname] using hwf _ hmem

/-- A check against a call by an operator's name, which has one argument. -/
theorem constructs_of_parse_operator_in_check :
    parse ([.mark .condition, .identifier "a", .keyword (.check .equal), .mark .openParen,
        .identifier "add", .integer "1", .mark .closeParen, .identifier "b"].map
          (Token.mk · default)) =
        .ok [.conditional .equal (.identifier "a") (some (.call "add" [.integer "1"]))
          [.identifier "b"] none] ∧
      [Node.integer "1"].length ≤ 1 ∧
      ∀ o place c e c',
        (Lowering.lowerNode o place (.conditional .equal (.identifier "a")
          (some (.call "add" [.integer "1"])) [.identifier "b"] none)).run c = some (e, c') →
          ∃ l found statements alternate,
            e = .ifStatement (Lowering.testOf .equal l found) (.blockStatement statements)
                alternate ∧
              found.isSome = Check.equal.takesRight := by
  have hparse : parse ([.mark .condition, .identifier "a", .keyword (.check .equal),
      .mark .openParen, .identifier "add", .integer "1", .mark .closeParen, .identifier "b"].map
        (Token.mk · default)) =
      .ok [.conditional .equal (.identifier "a") (some (.call "add" [.integer "1"]))
        [.identifier "b"] none] := by
    exact parse_eq_ok_iff.2 (.item (.conditional rfl (.identifier rfl) rfl
      (.operand rfl (.call rfl rfl (.more (by simp) (.integer rfl) (.done rfl)) (.inr (by simp))))
      (.single (by simp) (.identifier rfl)) (by simp)) .nil)
  obtain ⟨-, -, -, hchecks, hcalls⟩ := constructs_of_parse hparse
  refine ⟨hparse, hcalls .add _ ?_, (hchecks _ _ _ _ _ ?_).2⟩
  · simp [Node.walk, Arithmetic.name]
  · simp [Node.walk]

end LijsCompiler
