import LijsCompiler.Proofs.Lowering.Draws
import LijsCompiler.Proofs.Lowering.Totality

/-!
# What lowering leaves of its context

The buffer of declarations is taken away and brought back around each list of statements, and the
depth of loops goes up and down again around each body of a loop.  Whatever is lowered, and wherever,
both are as they should be afterwards: the depth is the same, and the buffer, the warnings and the
declared names begin with what they were (`grows_of_lowerNode`).  A list of statements leaves the
buffer exactly as it was, so the buffer is empty at the end of a program.
-/

namespace LijsCompiler

/-- No declared name is lost or moved. -/
theorem Lowering.introduced_prefix_of_lowers {o : Options} {form : Lowering.Form} {depth : Nat}
    {r r' : Registry} {es hs : List ESTree} {ws : List Warning}
    (h : Lowering.Lowers o form depth r es hs ws r') : r.introduced <+: r'.introduced := by
  refine Lowering.registry_induction (P := fun s => r.introduced <+: s.introduced) ?_ ?_ h
    (List.prefix_refl _)
  · intro s name hs
    exact hs.trans (Registry.introduced_prefix_introduce s name)
  · intro s name s' hfresh hs
    rw [(Registry.draws_of_fresh? hfresh).introduced_eq]
    exact hs.trans (Registry.introduced_prefix_introduce s name)

namespace Lowering

/-- The depth of loops and the reserved names are the same, and nothing that waits, was warned of or
was declared is lost or moved. -/
structure Context.Grows (c c' : Context) : Prop where
  depth : c'.depth = c.depth
  hoisted : c.hoisted <+: c'.hoisted
  warnings : c.warnings <+: c'.warnings
  introduced : c.registry.introduced <+: c'.registry.introduced
  reserved : c'.registry.reserved = c.registry.reserved

/-- Every run of a step from a context ends in a context with `P`, and if temporaries are drawn from
a counter there is a run. -/
def LeadsTo {α : Type} (step : Lower α) (c : Context) (P : Context → Prop) : Prop :=
  (∀ a c', step.run c = some (a, c') → P c') ∧ (Counts c → ∃ a c', step.run c = some (a, c'))

section

variable {o : Options} {c c' : Context}

theorem grows_after {form : Form} {es hs : List ESTree} {ws : List Warning} {r : Registry}
    (h : Lowers o form c.depth c.registry es hs ws r) : c.Grows (c.after hs ws r) where
  depth := rfl
  hoisted := List.prefix_append _ _
  warnings := List.prefix_append _ _
  introduced := introduced_prefix_of_lowers h
  reserved := reserved_of_lowers h

theorem grows_of_lowerNode {place : Place} {node : Node} {e : ESTree}
    (h : (lowerNode o place node).run c = some (e, c')) : c.Grows c' := by
  obtain ⟨hs, ws, r, hlowers, rfl⟩ := follows o node place c e c' h
  exact grows_after hlowers

theorem grows_of_lowerValues {nodes : List Node} {es : List ESTree}
    (h : (lowerValues o nodes).run c = some (es, c')) : c.Grows c' := by
  obtain ⟨hs, ws, r, hlowers, rfl⟩ := lowers_of_lowerValues (fun node _ => follows o node) h
  exact grows_after hlowers

theorem grows_of_lowerBlock {nodes : List Node} {ss : List ESTree}
    (h : (withOwnBuffer (lowerStatements o nodes)).run c = some (ss, c')) :
    c.Grows c' ∧ c'.hoisted = c.hoisted := by
  obtain ⟨ws, r, hlowers, rfl⟩ := lowers_of_lowerBlock (fun node _ => follows o node) h
  exact ⟨grows_after hlowers, List.append_nil _⟩

end

theorem leadsTo_of_returns {α : Type} {step : Lower α} {c : Context} {P : Context → Prop}
    (hstep : Returns step) (hP : ∀ a c', step.run c = some (a, c') → P c') : LeadsTo step c P := by
  refine ⟨hP, fun hc => ?_⟩
  obtain ⟨a, c', hrun, -⟩ := hstep c hc
  exact ⟨a, c', hrun⟩

/-- In every context a node, in either place, and a list of values leave the depth of loops and the
reserved names as they are, and only add to the end of the buffer of declarations, the warnings and
the declared names.  So does a list of statements, and it leaves the buffer exactly as it is.  At
the end of a program the buffer is empty. -/
theorem lowering_restores_context (o : Options) :
    (∀ c place node, LeadsTo (lowerNode o place node) c c.Grows) ∧
    (∀ c nodes, LeadsTo (lowerValues o nodes) c c.Grows) ∧
    (∀ c nodes, LeadsTo (withOwnBuffer (lowerStatements o nodes)) c fun c' =>
      c.Grows c' ∧ c'.hoisted = c.hoisted) ∧
    ∀ supply program lowered, lowerProgram o supply program = some lowered →
      ∃ c', (withOwnBuffer (lowerStatements o program)).run (initialContext o supply program) =
          some (lowered.body, c') ∧
        c'.hoisted = [] ∧ c'.depth = 0 ∧ c'.registry.introduced = lowered.names ∧
        c'.warnings = lowered.warnings := by
  refine ⟨?_, ?_, ?_, ?_⟩
  · intro c place node
    exact leadsTo_of_returns (stepwise_returns.lowerNode o node place) fun _ _ => grows_of_lowerNode
  · intro c nodes
    exact leadsTo_of_returns (stepwise_returns.lowerValues o nodes) fun _ _ => grows_of_lowerValues
  · intro c nodes
    exact leadsTo_of_returns (stepwise_returns.lowerBlock o nodes) fun _ _ => grows_of_lowerBlock
  · intro supply program lowered h
    obtain ⟨⟨body, c'⟩, hrun, h⟩ := Option.bind_eq_some_iff.1 h
    cases h
    obtain ⟨hgrows, hhoisted⟩ := grows_of_lowerBlock hrun
    exact ⟨c', hrun, hhoisted, hgrows.depth, rfl, rfl⟩

/-- A loop over an array as an argument, inside two loops and with a declaration that waits.  As the
only statement of a list or of a program it leaves nothing behind in the buffer. -/
theorem lowering_restores_context_loop_in_call :
    let c : Context := ⟨(Registry.ofStrategy (.ofSeed 0) .standard).introduce "x",
      [.declare "a" (.identifier "x")], 2, [.statementInExpression .create]⟩
    let node : Node := .call "f" [.iterator (.array [.integer "1"])
      [.iterator (.identifier "y") [.assignment "z" (.identifier "item")]]]
    (∃ e c', (lowerNode {} .statement node).run c = some (e, c') ∧ c.Grows c' ∧
      c'.hoisted.length = 2 ∧ c'.registry.introduced = ["x", "_t0", "z"] ∧
      c'.warnings = [.statementInExpression .create, .statementInExpression .iterator]) ∧
    (∃ ss c', (withOwnBuffer (lowerStatements {} [node])).run c = some (ss, c') ∧
      c'.hoisted = c.hoisted) ∧
    ∃ lowered c', lowerProgram {} (.ofSeed 0) [node] = some lowered ∧
      (withOwnBuffer (lowerStatements {} [node])).run (initialContext {} (.ofSeed 0) [node]) =
        some (lowered.body, c') ∧
      c'.hoisted = [] := by
  intro c node
  obtain ⟨hnode, -, hblock, hprogram⟩ := lowering_restores_context {}
  have hcounts : Counts c := ⟨.standard, 0, Registry.generator_introduce _ "x"⟩
  have hcomputed : ((lowerNode {} .statement node).run c).map
      (fun (_, c') => (c'.hoisted.length, c'.registry.introduced, c'.warnings)) =
        some (2, ["x", "_t0", "z"],
          [.statementInExpression .create, .statementInExpression .iterator]) := by
    decide +kernel
  refine ⟨?_, ?_, ?_⟩
  · obtain ⟨⟨e, c'⟩, hrun, hparts⟩ := Option.map_eq_some_iff.1 hcomputed
    simp only [Prod.mk.injEq] at hparts
    exact ⟨e, c', hrun, (hnode c .statement node).1 e c' hrun, hparts⟩
  · obtain ⟨ss, c', hrun⟩ := (hblock c [node]).2 hcounts
    exact ⟨ss, c', hrun, ((hblock c [node]).1 ss c' hrun).2⟩
  · have hcounter : ({} : Options).temporaries = .counter .standard := rfl
    obtain ⟨lowered, hlowered⟩ := exists_lowerProgram_of_counter hcounter (.ofSeed 0) [node]
    obtain ⟨c', hrun, hempty, -⟩ := hprogram _ _ _ hlowered
    exact ⟨lowered, c', hlowered, hrun, hempty⟩

end Lowering

end LijsCompiler
