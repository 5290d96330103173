import LijsCompiler.Proofs.Lowering.Runs
import LijsCompiler.Proofs.Lowering.Stepwise
import LijsCompiler.Proofs.Parser.Names
import LijsCompiler.Proofs.Registry.Fresh

/-!
# Patience

A draw is given up when its patience runs out, and then there is no output.  More patience never
changes an output that there is already (`lowerProgram_of_patience_le`).  So a program has at most
one output for a strategy and a key, and what is said of the output for every patience is said of
the draws that come to an end at all, however long they take.
-/

namespace LijsCompiler

/-! ## Candidates -/

theorem Keystream.drawChar_of_le {s : Keystream} {limit limit' : Nat} {found : Char × Keystream}
    (hle : limit ≤ limit') (h : s.drawChar limit = some found) :
    s.drawChar limit' = some found := by
  induction limit generalizing s limit' with
  | zero => cases h
  | succ limit ih =>
      obtain ⟨limit', rfl⟩ : ∃ n, limit' = n + 1 := ⟨limit' - 1, by omega⟩
      rw [drawChar] at h ⊢
      dsimp only at h ⊢
      split at h
      · exact h
      · exact ih (by omega) h

theorem Keystream.drawChars_of_le {s : Keystream} {limit limit' length : Nat}
    {found : List Char × Keystream} (hle : limit ≤ limit')
    (h : s.drawChars limit length = some found) : s.drawChars limit' length = some found := by
  induction length generalizing s found with
  | zero => exact h
  | succ length ih =>
      rw [drawChars] at h ⊢
      obtain ⟨⟨c, s₁⟩, hchar, h⟩ := Option.bind_eq_some_iff.1 h
      obtain ⟨⟨cs, s₂⟩, hrest, h⟩ := Option.bind_eq_some_iff.1 h
      refine Option.bind_eq_some_iff.2 ⟨_, drawChar_of_le hle hchar, ?_⟩
      exact Option.bind_eq_some_iff.2 ⟨_, ih hrest, h⟩

theorem Generator.candidate?_of_le {g : Generator} {p q : Nat} {found : String × Generator}
    (hle : p ≤ q) (h : g.candidate? p = some found) : g.candidate? q = some found := by
  cases g with
  | counter stem next => exact h
  | random length stream =>
      rw [candidate?] at h ⊢
      obtain ⟨chars, hchars, h⟩ := Option.bind_eq_some_iff.1 h
      exact Option.bind_eq_some_iff.2 ⟨chars, Keystream.drawChars_of_le hle hchars, h⟩

/-! ## Draws -/

namespace Registry

def withPatience (r : Registry) (patience : Nat) : Registry := { r with patience }

theorem foldl_reserve_withPatience (names : List String) (r : Registry) (q : Nat) :
    names.foldl reserve (r.withPatience q) = (names.foldl reserve r).withPatience q := by
  induction names generalizing r with
  | nil => rfl
  | cons name names ih =>
      have hreserve : (r.withPatience q).reserve name = (r.reserve name).withPatience q := by
        unfold reserve
        split <;> simp_all [withPatience]
      rw [List.foldl_cons, hreserve, ih, List.foldl_cons]

theorem introduce_withPatience (r : Registry) (name : String) (q : Nat) :
    (r.withPatience q).introduce name = (r.introduce name).withPatience q := by
  unfold introduce
  split <;> simp_all [withPatience]

theorem patience_introduce (r : Registry) (name : String) :
    (r.introduce name).patience = r.patience := by
  unfold introduce
  split <;> rfl

theorem draw_withPatience (r : Registry) (name : String) (q : Nat) :
    (r.withPatience q).draw name = (r.draw name).withPatience q := by
  rw [draw, introduce_withPatience]
  rfl

theorem search_of_le {r r' : Registry} {limit limit' q : Nat} {name : String}
    (hlimit : limit ≤ limit') (hle : r.patience ≤ q) (h : r.search limit = some (name, r')) :
    (r.withPatience q).search limit' = some (name, r'.withPatience q) ∧
      r'.patience = r.patience := by
  induction limit generalizing r limit' with
  | zero => cases h
  | succ limit ih =>
      obtain ⟨limit', rfl⟩ : ∃ n, limit' = n + 1 := ⟨limit' - 1, by omega⟩
      rw [search] at h ⊢
      obtain ⟨⟨candidate, generator⟩, hcandidate, h⟩ := Option.bind_eq_some_iff.1 h
      have hsame : (r.withPatience q).generator.candidate? q = some (candidate, generator) :=
        Generator.candidate?_of_le hle hcandidate
      dsimp only at h
      split at h
      · rename_i haccepts
        cases h
        refine ⟨Option.bind_eq_some_iff.2 ⟨_, hsame, ?_⟩, patience_introduce _ _⟩
        rw [← draw_withPatience]
        exact if_pos haccepts
      · rename_i haccepts
        have hnext := ih (r := { r with generator }) (Nat.le_of_succ_le_succ hlimit) hle h
        obtain ⟨hsearch, hpatience⟩ := hnext
        refine ⟨Option.bind_eq_some_iff.2 ⟨_, hsame, ?_⟩, hpatience⟩
        exact (if_neg haccepts).trans hsearch

theorem fresh?_of_le {r r' : Registry} {q : Nat} {name : String} (hle : r.patience ≤ q)
    (h : r.fresh? = some (name, r')) :
    (r.withPatience q).fresh? = some (name, r'.withPatience q) ∧ r'.patience = r.patience := by
  refine search_of_le ?_ hle h
  simp only [searchLimit, withPatience]
  omega

end Registry

/-! ## Runs -/

namespace Lowering

def Context.withPatience (c : Context) (patience : Nat) : Context :=
  { c with registry := c.registry.withPatience patience }

/-- With more patience the step gives what it gave before and leaves the same context. -/
def Persists {α : Type} (step : Lower α) : Prop :=
  ∀ c a c' q, c.registry.patience ≤ q → step.run c = some (a, c') →
    step.run (c.withPatience q) = some (a, c'.withPatience q) ∧
      c'.registry.patience = c.registry.patience

theorem persists_bind {α β : Type} {step : Lower α} {next : α → Lower β} (hstep : Persists step)
    (hnext : ∀ a, Persists (next a)) : Persists (step >>= next) := by
  intro c b c' q hle h
  obtain ⟨a, c₁, hrun, h⟩ := run_bind_eq_some.1 h
  obtain ⟨hrun, hpatience₁⟩ := hstep c a c₁ q hle hrun
  obtain ⟨hrun', hpatience₂⟩ := hnext a c₁ b c' q (by omega) h
  exact ⟨run_bind_eq_some.2 ⟨a, _, hrun, hrun'⟩, hpatience₂.trans hpatience₁⟩

theorem persists_modify {f : Context → Context}
    (hsame : ∀ c registry, f { c with registry } = { f c with registry }) :
    Persists (modify f : Lower Unit) := by
  intro c a c' q _ h
  cases h
  have hregistry : (f c).registry = c.registry := by
    have hc := hsame c c.registry
    exact congrArg (·.registry) hc
  refine ⟨?_, congrArg Registry.patience hregistry⟩
  change some ((), f (c.withPatience q)) = _
  rw [Context.withPatience, hsame, Context.withPatience, hregistry]

theorem persists_introduce (name : String) : Persists (introduce name) := by
  intro c a c' q _ h
  rw [run_introduce] at h
  cases h
  refine ⟨?_, Registry.patience_introduce _ _⟩
  rw [run_introduce]
  simp [Context.after, Context.withPatience, Registry.introduce_withPatience]

theorem persists_fresh : Persists fresh := by
  intro c name c' q hle h
  obtain ⟨r, hfresh, rfl⟩ := run_fresh_eq_some.1 h
  obtain ⟨hfresh, hpatience⟩ := Registry.fresh?_of_le hle hfresh
  exact ⟨run_fresh_eq_some.2 ⟨_, hfresh, rfl⟩, hpatience⟩

theorem stepwise_persists : Stepwise @Persists where
  pure := by
    intro α a c b c' q _ h
    obtain ⟨rfl, rfl⟩ := run_pure_eq_some.1 h
    exact ⟨rfl, rfl⟩
  bind := persists_bind
  get_bind := by
    intro α next hsame hnext c a c' q hle h
    obtain ⟨hrun, hpatience⟩ := hnext c c a c' q hle h
    refine ⟨?_, hpatience⟩
    change (next (c.withPatience q)).run (c.withPatience q) = _
    rw [Context.withPatience, hsame]
    exact hrun
  modify := persists_modify
  takeHoisted := by
    intro c a c' q _ h
    cases h
    exact ⟨rfl, rfl⟩
  introduce := persists_introduce
  fresh := persists_fresh

theorem initialContext_withPatience (o : Options) (key : StreamKey) (p q : Nat)
    (program : List Node) :
    (initialContext o ⟨key, p⟩ program).withPatience q = initialContext o ⟨key, q⟩ program := by
  unfold initialContext Context.withPatience
  rw [← Registry.foldl_reserve_withPatience]
  rfl

theorem patience_initialContext (o : Options) (supply : Supply) (program : List Node) :
    (initialContext o supply program).registry.patience = supply.patience :=
  congrArg Registry.patience (Registry.foldl_reserve_eq _ _)

/-- More patience keeps an output that there is. -/
theorem lowerProgram_of_patience_le {o : Options} {key : StreamKey} {p q : Nat}
    {program : List Node} {lowered : Lowered} (hle : p ≤ q)
    (h : lowerProgram o ⟨key, p⟩ program = some lowered) :
    lowerProgram o ⟨key, q⟩ program = some lowered := by
  unfold lowerProgram at h ⊢
  obtain ⟨⟨body, c⟩, hrun, h⟩ := Option.bind_eq_some_iff.1 h
  have hpatience : (initialContext o ⟨key, p⟩ program).registry.patience ≤ q := by
    rw [patience_initialContext]
    exact hle
  have hmore := stepwise_persists.lowerBlock o program _ _ _ q hpatience hrun
  rw [initialContext_withPatience] at hmore
  exact Option.bind_eq_some_iff.2 ⟨_, hmore.1, h⟩

end Lowering

/-- The patience of the draws decides whether there is an output, but not which. -/
theorem compile_patience_irrelevant {c : Configuration} {key : StreamKey} {p q : Nat}
    {source : String} {l₁ l₂ : Lowered} (h₁ : compile c ⟨key, p⟩ source = .ok l₁)
    (h₂ : compile c ⟨key, q⟩ source = .ok l₂) : l₁ = l₂ := by
  obtain ⟨program, hparse, hlower₁⟩ := compile_eq_ok_iff.1 h₁
  obtain ⟨program', hparse', hlower₂⟩ := compile_eq_ok_iff.1 h₂
  cases hparse.symm.trans hparse'
  rcases Nat.le_total p q with hle | hle
  · have hsame := Lowering.lowerProgram_of_patience_le hle hlower₁
    exact Option.some.inj (hsame.symm.trans hlower₂)
  · have hsame := Lowering.lowerProgram_of_patience_le hle hlower₂
    exact Option.some.inj (hlower₁.symm.trans hsame)

end LijsCompiler
