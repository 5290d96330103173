import LijsCompiler.Proofs.Lowering.Outline

/-!
# Two programs one after the other

From one statement to the next lowering carries nothing but the registry: the buffer of declarations
is empty there and the depth of loops is that of the block.  The registry of the joined program
reserves more names and, for the second program, begins with the names of the first.  By their
outlines both programs come out as they do alone, with other temporaries (`exists_isJoin`).
-/

namespace LijsCompiler

/-- The output of two programs one after the other, which share no temporary.  A name that both
declare counts as declared by the first. -/
structure Lowered.IsJoin (first second joined : Lowered) : Prop where
  distinct : (first.temporaries ++ second.temporaries).Nodup
  body : joined.body = first.body ++ second.body
  names : joined.names = first.names ++
    second.names.filter fun name => name ∈ second.temporaries ∨ name ∉ first.names
  temporaries : joined.temporaries = first.temporaries ++ second.temporaries
  warnings : joined.warnings = first.warnings ++ second.warnings

/-- From the first registry to the second no declared name is lost, and no declared name is
drawn. -/
structure Registry.Extends (start r : Registry) : Prop where
  introduced : ∀ name ∈ start.introduced, name ∈ r.introduced
  drawn : ∀ name ∈ r.drawn, name ∈ start.drawn ∨ name ∉ start.introduced

namespace Lowering

/-- The second output is the first with other temporaries, each where lowering put the old one. -/
def Refills (o : Options) (program : List Node) (lowered other : Lowered) : Prop :=
  ∃ x, Outlines o program x ∧
    lowered.temporaries.length = x.holes.length ∧ lowered = x.fill lowered.temporaries ∧
    other.temporaries.length = x.holes.length ∧ other = x.fill other.temporaries

theorem Refills.warnings {o : Options} {program : List Node} {lowered other : Lowered}
    (h : Refills o program lowered other) : other.warnings = lowered.warnings := by
  obtain ⟨x, -, -, hlowered, -, hother⟩ := h
  rw [hlowered, hother]
  rfl

theorem refills_fill {o : Options} {supply : Supply} {program : List Node} {x : Outline}
    {lowered : Lowered} (hx : Describes o program x)
    (h : lowerProgram o supply program = some lowered) {temporaries : List String}
    (hlength : temporaries.length = x.holes.length) :
    Refills o program lowered (x.fill temporaries) := by
  have houtlines := outlines_of_describes hx
  obtain ⟨-, hlowered, hfill⟩ := houtlines o.temporaries supply lowered h
  exact ⟨x, houtlines, hlowered, hfill, hlength, rfl⟩

section

variable {o : Options} {depth : Nat} {r r' : Registry} {es hs : List ESTree} {ws : List Warning}

/-- A run of two lists of statements passes through a registry between them. -/
theorem exists_of_lowers_block_append {p q : List Node}
    (h : Lowers o (.block (p ++ q)) depth r es [] ws r') :
    ∃ es₁ es₂ ws₁ ws₂ m, es = es₁ ++ es₂ ∧ ws = ws₁ ++ ws₂ ∧
      Lowers o (.block p) depth r es₁ [] ws₁ m ∧ Lowers o (.block q) depth m es₂ [] ws₂ r' := by
  induction p generalizing r es ws with
  | nil => exact ⟨[], es, [], ws, r, rfl, rfl, .emptyBlock, h⟩
  | cons node p ih =>
      cases h with
      | @block _ _ _ _ _ _ e es hs ws ws' hnode hnodes =>
          obtain ⟨es₁, es₂, ws₁, ws₂, m, rfl, rfl, hp, hq⟩ := ih hnodes
          refine ⟨hs ++ e :: es₁, es₂, ws ++ ws₁, ws₂, m, ?_, ?_, .block hnode hp, hq⟩
          · rw [List.append_assoc, List.cons_append]
          · rw [List.append_assoc]

theorem extends_of_lowers {form : Form} (h : Lowers o form depth r es hs ws r') :
    r.Extends r' := by
  refine registry_induction (P := r.Extends) ?_ ?_ h ⟨fun _ => id, fun _ => .inl⟩
  · intro s name hs
    constructor
    · intro other hother
      exact Registry.mem_introduced_introduce.2 (.inl (hs.introduced other hother))
    · rw [Registry.drawn_introduce]
      exact hs.drawn
  · intro s name s' hfresh hs
    have hdraws := Registry.draws_of_fresh? hfresh
    constructor
    · intro other hother
      rw [hdraws.introduced]
      exact List.mem_append_left _ (hs.introduced other hother)
    · rw [hdraws.drawn, List.forall_mem_append, List.forall_mem_singleton]
      exact ⟨hs.drawn, .inr fun hname => hdraws.not_mem_introduced (hs.introduced name hname)⟩

/-- No name that was declared before is drawn. -/
theorem not_mem_introduced_of_lowers {form : Form} (h : Lowers o form depth r es hs ws r')
    (hr : r.Sound) {temporaries : List String} (hdrawn : r'.drawn = r.drawn ++ temporaries)
    {name : String} (hname : name ∈ temporaries) : name ∉ r.introduced := by
  have hmem : name ∈ r'.drawn := by
    rw [hdrawn]
    exact List.mem_append_right _ hname
  rcases (extends_of_lowers h).drawn name hmem with hold | hnew
  · have hnodup := (sound_of_lowers h hr).nodup
    rw [hdrawn, List.nodup_append] at hnodup
    exact absurd rfl (hnodup.2.2 name hold name hname)
  · exact hnew

end

/-- Two programs one after the other give what they give alone, with other temporaries. -/
theorem exists_isJoin {o : Options} {stem : Stem} (hcounter : o.temporaries = .counter stem)
    {supply : Supply} {p q : List Node} {l₁ l₂ : Lowered}
    (hp : lowerProgram o supply p = some l₁) (hq : lowerProgram o supply q = some l₂) :
    ∃ joined first second, lowerProgram o supply (p ++ q) = some joined ∧
      Refills o p l₁ first ∧ Refills o q l₂ second ∧ first.IsJoin second joined := by
  obtain ⟨joined, hjoined⟩ := exists_lowerProgram_of_counter hcounter supply (p ++ q)
  obtain ⟨r, hlowers, hnames, htemporaries⟩ := lowers_of_lowerProgram hjoined
  obtain ⟨es₁, es₂, ws₁, ws₂, m, hbody, hwarnings, hfirst, hsecond⟩ :=
    exists_of_lowers_block_append hlowers
  have hdrawn := drawn_initialContext o supply (p ++ q)
  have hsound := sound_of_lowers hfirst (Registry.sound_of_drawn_eq_nil hdrawn)
  have hreserved : ∀ node ∈ Node.walkAll (p ++ q), ∀ name ∈ node.names,
      name ∈ (initialContext o supply (p ++ q)).registry.reserved :=
    fun _ hnode _ hname => mem_reserved_of_mem_names hnode hname
  rw [Node.forall_mem_walkAll_append] at hreserved
  obtain ⟨x, -, hx⟩ := exists_describes o p
  obtain ⟨y, -, hy⟩ := exists_describes o q
  obtain ⟨hlength₁, hbody₁, hwarnings₁, hnames₁⟩ :=
    hx.of_start o.temporaries hdrawn (introduced_initialContext ..) hfirst hreserved.1
  rw [← reserved_of_lowers hfirst] at hreserved
  obtain ⟨others, hdrawn₂, hlength₂, hbody₂, hwarnings₂, hnames₂⟩ :=
    hy o.temporaries _ _ _ _ hsecond hsound hreserved.2
  refine ⟨joined, x.fill m.drawn, y.fill others, hjoined, refills_fill hx hp hlength₁,
    refills_fill hy hq hlength₂, ?_⟩
  constructor
  · show (m.drawn ++ others).Nodup
    rw [← hdrawn₂]
    exact (sound_of_lowers hsecond hsound).nodup
  · rw [hbody, hbody₁, hbody₂]
  · rw [hnames, hnames₂, hnames₁]
    congr 1
    apply List.filter_congr
    intro name _
    have hnew : name ∈ others → name ∉ (x.fill m.drawn).names := by
      rw [← hnames₁]
      exact not_mem_introduced_of_lowers hsecond hsound hdrawn₂
    exact decide_eq_decide.2 ⟨.inr, Or.rec hnew id⟩
  · rw [htemporaries, hdrawn₂]
    rfl
  · rw [hwarnings, hwarnings₁, hwarnings₂]
    rfl

end Lowering

end LijsCompiler
