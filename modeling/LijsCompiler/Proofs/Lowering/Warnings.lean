import LijsCompiler.Proofs.Lowering.Slots

/-!
# Warnings and misplaced nodes

A construct without a value that stands in a value position is lowered to something that is no
expression, and nothing on the way to the output takes it out of its slot again.  So there is a
warning exactly if some slot of the output that wants an expression does not hold one
(`warnings_eq_nil_iff`).
-/

namespace LijsCompiler

open ESTree

namespace Lowering

theorem isExpression_bound (name : String) (init : ESTree) :
    (bound name init).isExpression = false := by
  unfold bound
  split <;> rfl

/-- A node in a value position becomes an expression exactly if it gives a value. -/
theorem separates_isExpression (o : Options) :
    Separates o (fun e => e.isExpression) (fun node => node.givesNoValue) := by
  intro node depth r e hs ws r' h
  cases h with
  | identifier => simp [Node.givesNoValue, isExpression_path]
  | assignment | create | useModuleAs => simp [Node.givesNoValue, isExpression_bound]
  | _ => simp [Node.givesNoValue, Place.embed, isExpression, numberLiteral, number, ESTree.string,
      index, require, exported, countingLoop]

theorem flatMap_warnings_eq_nil_iff {occurrences : List Occurrence} :
    occurrences.flatMap Occurrence.warnings = [] ↔
      ValuesAvoid (fun node => node.givesNoValue) occurrences := by
  unfold ValuesAvoid Occurrence.warnings
  simp only [List.flatMap_eq_nil_iff, List.map_eq_nil_iff, List.filter_eq_nil_iff,
    Occurrence.isMisplaced, Bool.and_eq_true, decide_eq_true_eq, not_and, List.mem_flatMap]
  grind

/-- No warning is given exactly if all that comes of a form is right for its place. -/
theorem warnings_eq_nil_iff_accepts {o : Options} {form : Form} {depth : Nat} {r r' : Registry}
    {es hs : List ESTree} {ws : List Warning} (h : Lowers o form depth r es hs ws r')
    (hwf : Node.WellFormed form.nodes) :
    ws = [] ↔ (∀ e ∈ hs, IsClean (fun e => e.isExpression) e) ∧
      ∀ e ∈ es, form.place.Accepts (fun e => e.isExpression) e := by
  rw [accepts_iff_valuesAvoid (fun _ => id) (separates_isExpression o) h hwf, warnings_of_lowers h,
    flatMap_warnings_eq_nil_iff]

end Lowering

/-- With a counter every parsed program is lowered.  Whatever the strategy, no warning is given
exactly if every slot of the output that wants an expression holds one.  Blocks and the declarations
of loops are always where they belong. -/
theorem warnings_eq_nil_iff {o : Options} {tokens : List Token} {program : List Node}
    (supply : Supply) (hparse : parse tokens = .ok program) :
    (∀ stem, o.temporaries = .counter stem →
        ∃ lowered, Lowering.lowerProgram o supply program = some lowered) ∧
      ∀ lowered, Lowering.lowerProgram o supply program = some lowered →
        (lowered.warnings = [] ↔
            ∀ node ∈ walkAll lowered.body, ∀ slot ∈ node.expressionSlots, slot.isExpression) ∧
          ∀ node ∈ walkAll lowered.body,
            (∀ slot ∈ node.blockSlots, slot.isBlock) ∧
              ∀ slot ∈ node.initSlots, slot.isDeclaration := by
  constructor
  · intro stem hstrategy
    exact Lowering.exists_lowerProgram_of_counter hstrategy supply program
  intro lowered hlower
  obtain ⟨r, hlowers, -, -⟩ := Lowering.lowers_of_lowerProgram hlower
  constructor
  · rw [forall_mem_walkAll]
    have hwf := Node.wellFormed_of_parse hparse
    rw [Lowering.warnings_eq_nil_iff_accepts hlowers hwf]
    exact and_iff_right (by simp)
  · have hshaped := forall_mem_walkAll.2 (Lowering.isShaped_of_lowers hlowers).2
    intro node hnode
    exact ⟨(hshaped node hnode).blocks, (hshaped node hnode).declarations⟩

/-- An object made inside an array is declared there, in a slot that wants an expression. -/
theorem warnings_eq_nil_iff_create_in_array :
    parse ([.mark .openBracket, .keyword .make, .identifier "x", .mark .closeBracket].map
        (Token.mk · default)) = .ok [.array [.create "x"]] ∧
      Lowering.lowerProgram {} (.ofSeed 0) [.array [.create "x"]] =
        some ⟨[.expressionStatement (.arrayExpression [.declare "x" (.objectExpression [])])],
          ["x"], [], [.statementInExpression .create]⟩ ∧
      ([Warning.statementInExpression .create] = [] ↔
        ∀ node ∈ walkAll
            [.expressionStatement (.arrayExpression [.declare "x" (.objectExpression [])])],
          ∀ slot ∈ node.expressionSlots, slot.isExpression) := by
  have hparse : parse ([.mark .openBracket, .keyword .make, .identifier "x",
      .mark .closeBracket].map (Token.mk · default)) = .ok [.array [.create "x"]] :=
    parse_eq_ok_iff.2 (.item (.array rfl (.more (by simp) (.create rfl rfl) (.done rfl))) .nil)
  have hlower : Lowering.lowerProgram {} (.ofSeed 0) [.array [.create "x"]] = some _ := rfl
  exact ⟨hparse, hlower, ((warnings_eq_nil_iff (.ofSeed 0) hparse).2 _ hlower).1⟩

end LijsCompiler
