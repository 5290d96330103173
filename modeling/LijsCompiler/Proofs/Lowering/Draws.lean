import LijsCompiler.Proofs.Lowering.Runs
import LijsCompiler.Proofs.Registry.Fresh

/-!
# The registry along a program

Lowering changes the registry in two ways only: it records declared names and it draws temporaries
(`registry_induction`).  In value positions it does neither, unless it warns (`eq_of_lowers_value`).
-/

namespace LijsCompiler

namespace Registry

@[simp] theorem drawn_bind (r : Registry) (name : String) : (r.bind name).drawn = r.drawn := by
  unfold bind
  split
  · rfl
  · rw [drawn_introduce]

@[simp] theorem drawn_define (r : Registry) (name : String) (params : List String) :
    (r.define name params).drawn = r.drawn := by
  have hparams (r : Registry) : (params.foldl introduce r).drawn = r.drawn := by
    induction params generalizing r with
    | nil => rfl
    | cons param params ih => rw [List.foldl_cons, ih, drawn_introduce]
  rw [define, hparams, drawn_bind]

section Kept

variable {P : Registry → Prop} (hintroduce : ∀ r name, P r → P (r.introduce name))

include hintroduce

theorem bind_induction {r : Registry} (name : String) (h : P r) : P (r.bind name) := by
  unfold bind
  split
  · exact h
  · exact hintroduce r name h

theorem define_induction {r : Registry} (name : String) (params : List String) (h : P r) :
    P (r.define name params) := by
  have hparams (r : Registry) (h : P r) : P (params.foldl introduce r) := by
    induction params generalizing r with
    | nil => exact h
    | cons param params ih => exact ih _ (hintroduce r param h)
  exact hparams _ (bind_induction hintroduce name h)

end Kept

end Registry

namespace Lowering

/-! ## The registry that a program starts with -/

theorem drawn_initialContext (o : Options) (supply : Supply) (program : List Node) :
    (initialContext o supply program).registry.drawn = [] :=
  congrArg Registry.drawn (Registry.foldl_reserve_eq _ _)

theorem mem_reserved_initialContext {o : Options} {supply : Supply} {program : List Node}
    {name : String} (h : name ∈ reservedNames o program) :
    name ∈ (initialContext o supply program).registry.reserved :=
  Registry.mem_reserved_foldl_reserve (.inl h)

/-! ## What lowering does to the registry -/

section Registry

variable {o : Options} {form : Form} {depth : Nat} {r r' : Registry} {es hs : List ESTree}
  {ws : List Warning}

/-- What declaring a name and drawing a temporary keep, lowering keeps. -/
theorem registry_induction {P : Registry → Prop}
    (hintroduce : ∀ r name, P r → P (r.introduce name))
    (hfresh : ∀ r name r', r.fresh? = some (name, r') → P r → P r')
    (h : Lowers o form depth r es hs ws r') (hr : P r) : P r' := by
  induction h with
  | identifier | integer | float | string | useModule | exportName | noValues | emptyBlock =>
      exact hr
  | array _ ih | get _ ih | set _ ih | call _ ih | result _ ih | arithmetic _ ih => exact ih hr
  | assignment _ ih => exact Registry.bind_induction hintroduce _ (ih hr)
  | create | useModuleAs => exact Registry.bind_induction hintroduce _ hr
  | function _ ih => exact ih (Registry.define_induction hintroduce _ _ hr)
  | iteratorArray _ hdraw _ ihsource ihbody => exact ihbody (hfresh _ _ _ hdraw (ihsource hr))
  | iterator _ _ _ ihfirst ihsecond | conditional _ _ ihfirst ihsecond
  | values _ _ ihfirst ihsecond | block _ _ ihfirst ihsecond => exact ihsecond (ihfirst hr)
  | conditionalElse _ _ _ ihoperands ihpass ihfail => exact ihfail (ihpass (ihoperands hr))

theorem reserved_of_lowers (h : Lowers o form depth r es hs ws r') :
    r'.reserved = r.reserved := by
  refine registry_induction (P := fun s => s.reserved = r.reserved) ?_ ?_ h rfl
  · intro s name hs
    rw [Registry.reserved_introduce, hs]
  · intro s name s' hfresh hs
    rw [(Registry.draws_of_fresh? hfresh).reserved, hs]

theorem sound_of_lowers (h : Lowers o form depth r es hs ws r') (hr : r.Sound) : r'.Sound := by
  refine registry_induction (P := Registry.Sound) ?_ ?_ h hr
  · intro s name hs
    exact hs.introduce name
  · intro s name s' hfresh hs
    exact hs.of_draws (Registry.draws_of_fresh? hfresh)

theorem drawn_prefix_of_lowers (h : Lowers o form depth r es hs ws r') :
    r.drawn <+: r'.drawn := by
  refine registry_induction (P := fun s => r.drawn <+: s.drawn) ?_ ?_ h (List.prefix_refl _)
  · intro s name hs
    rwa [Registry.drawn_introduce]
  · intro s name s' hfresh hs
    rw [(Registry.draws_of_fresh? hfresh).drawn]
    exact hs.trans (List.prefix_append _ _)

/-- In a value position nothing is declared, drawn or hoisted without a warning. -/
theorem eq_of_lowers_value (h : Lowers o form depth r es hs ws r')
    (hplace : form.place = .value) (hws : ws = []) : hs = [] ∧ r' = r := by
  induction h with
  | identifier | integer | float | string | useModule | exportName | noValues => exact ⟨rfl, rfl⟩
  | array _ ih | get _ ih | set _ ih | call _ ih | arithmetic _ ih => exact ih rfl hws
  | assignment | create | useModuleAs | function | iteratorArray | iterator | conditional
  | conditionalElse | result =>
      -- each of these warns here
      obtain rfl : _ = Place.value := hplace
      simp [Place.warnings] at hws
  | values _ _ ihnode ihnodes =>
      rw [List.append_eq_nil_iff] at hws
      obtain ⟨rfl, rfl⟩ := ihnode rfl hws.1
      obtain ⟨rfl, rfl⟩ := ihnodes rfl hws.2
      exact ⟨rfl, rfl⟩
  | emptyBlock | block => cases hplace

end Registry

end Lowering

end LijsCompiler
