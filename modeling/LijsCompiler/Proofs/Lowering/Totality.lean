import LijsCompiler.Proofs.Lowering.Runs
import LijsCompiler.Proofs.Lowering.Stepwise
import LijsCompiler.Proofs.Registry.Counter

/-!
# Lowering with a counter always returns

The only step of lowering that can fail is the draw of a temporary.  A counter never fails to draw,
and every step leaves a counter behind it, so the whole run returns.
-/

namespace LijsCompiler.Lowering

def Counts (c : Context) : Prop := ∃ stem n, c.registry.generator = .counter stem n

/-- A step that returns wherever there is a counter, and leaves one. -/
def Returns {α : Type} (step : Lower α) : Prop :=
  ∀ c, Counts c → ∃ a c', step.run c = some (a, c') ∧ Counts c'

theorem returns_bind {α β : Type} {step : Lower α} {next : α → Lower β} (hstep : Returns step)
    (hnext : ∀ a, Returns (next a)) : Returns (step >>= next) := by
  intro c hc
  obtain ⟨a, c₁, hrun, hc₁⟩ := hstep c hc
  obtain ⟨b, c₂, hrun', hc₂⟩ := hnext a c₁ hc₁
  refine ⟨b, c₂, ?_, hc₂⟩
  rw [StateT.run_bind, hrun]
  exact hrun'

theorem returns_fresh : Returns fresh := by
  rintro c ⟨stem, n, hgen⟩
  obtain ⟨k, hleast, -⟩ := c.registry.exists_isLeast_freeFrom stem n
  have hfresh := Registry.fresh?_counter_eq hgen hleast
  exact ⟨_, c.after [] [] _, run_fresh_eq_some.2 ⟨_, hfresh, rfl⟩, stem, k + 1, rfl⟩

theorem stepwise_returns : Stepwise @Returns where
  pure a c hc := ⟨a, c, rfl, hc⟩
  bind := returns_bind
  get_bind _ hnext c hc := hnext c c hc
  modify := by
    intro f hsame c hc
    refine ⟨(), f c, rfl, ?_⟩
    rw [hsame c c.registry]
    exact hc
  takeHoisted c hc := ⟨c.hoisted, { c with hoisted := [] }, rfl, hc⟩
  introduce := by
    rintro name c ⟨stem, n, hgen⟩
    exact ⟨_, _, run_introduce name, stem, n, by simpa using hgen⟩
  fresh := returns_fresh

/-- With a counter every program is lowered. -/
theorem exists_lowerProgram_of_counter {o : Options} {stem : Stem}
    (hstrategy : o.temporaries = .counter stem) (supply : Supply) (program : List Node) :
    ∃ lowered, lowerProgram o supply program = some lowered := by
  have hcounts : Counts (initialContext o supply program) := by
    refine ⟨stem, 0, ?_⟩
    unfold initialContext
    rw [Registry.foldl_reserve_eq, hstrategy]
    rfl
  obtain ⟨body, c, hrun, -⟩ := stepwise_returns.lowerBlock o program _ hcounts
  refine ⟨⟨body, c.registry.introduced, c.registry.drawn, c.warnings⟩, ?_⟩
  unfold lowerProgram
  rw [hrun]
  rfl

end LijsCompiler.Lowering
