import LijsCompiler.Proofs.Lowering.Parallel
import LijsCompiler.Proofs.Lowering.Totality

/-!
# Outlines

An outline is the output of a program with holes for its temporaries.  Every program has an outline
that does not depend on the strategy for temporaries: whatever the strategy draws, the output is the
outline with its holes filled (`exists_outline`).

The outline of a program is the output of one run of it, with a counter whose numbered names are
longer than every name that can stand in the output.  A hole is thus an identifier with one of these
names, and every other run is in step with this one.
-/

namespace LijsCompiler

/-- The output of a program with numbered holes: hole `i` is wherever the `i`-th of the names
`holes` is. -/
structure Outline where
  holes : List String
  body : List ESTree
  names : List String
  warnings : List Warning
  nodup : holes.Nodup

namespace Outline

def fillName (x : Outline) (temporaries : List String) (name : String) : String :=
  temporaries.getD (x.holes.idxOf name) name

def fill (x : Outline) (temporaries : List String) : Lowered where
  body := x.body.map (ESTree.rename (x.fillName temporaries))
  names := x.names.map (x.fillName temporaries)
  temporaries := temporaries
  warnings := x.warnings

section

variable {x : Outline} {temporaries : List String}

theorem fillName_eq_self (hlength : temporaries.length = x.holes.length) {name : String}
    (h : name ∉ x.holes) : x.fillName temporaries name = name := by
  rw [fillName, List.idxOf_eq_length h, ← hlength]
  simp

theorem map_fillName_holes (hlength : temporaries.length = x.holes.length) :
    x.holes.map (x.fillName temporaries) = temporaries := by
  apply List.ext_getElem
  · rw [List.length_map, hlength]
  · intro i _ hi
    have hhole : i < x.holes.length := by rwa [← hlength]
    have hindex : x.holes.idxOf x.holes[i] = i := x.nodup.idxOf_getElem i hhole
    simp [fillName, hindex, hi]

end

end Outline

/-! ## Drawing from a counter -/

namespace Registry

/-- All temporaries so far are numbered names with the stem, and so will be all others. -/
structure AllNumbered (stem : Stem) (r : Registry) : Prop where
  generator : ∃ n, r.generator = .counter stem n
  drawn : ∀ name ∈ r.drawn, ∃ n, name = stem.numbered n

theorem AllNumbered.introduce {stem : Stem} {r : Registry} (h : r.AllNumbered stem)
    (name : String) : (r.introduce name).AllNumbered stem :=
  ⟨by simpa using h.generator, by simpa using h.drawn⟩

theorem AllNumbered.fresh {stem : Stem} {r r' : Registry} {name : String} (h : r.AllNumbered stem)
    (hfresh : r.fresh? = some (name, r')) : r'.AllNumbered stem := by
  obtain ⟨n, hgen⟩ := h.generator
  obtain ⟨k, -, rfl, rfl⟩ := exists_eq_of_search_counter hgen hfresh
  refine ⟨⟨k + 1, rfl⟩, ?_⟩
  rw [(draws_of_fresh? hfresh).drawn, List.forall_mem_append, List.forall_mem_singleton]
  exact ⟨h.drawn, k, rfl⟩

end Registry

namespace Lowering

/-! ## The initial registry -/

theorem introduced_initialContext (o : Options) (supply : Supply) (program : List Node) :
    (initialContext o supply program).registry.introduced = [] :=
  congrArg Registry.introduced (Registry.foldl_reserve_eq _ _)

theorem generator_initialContext (o : Options) (supply : Supply) (program : List Node) :
    (initialContext o supply program).registry.generator =
      Generator.ofStrategy supply.key o.temporaries :=
  congrArg Registry.generator (Registry.foldl_reserve_eq _ _)

/-! ## Names that are longer than all others -/

/-- The length of the longest name that lowering may write, temporaries and loop indices apart. -/
def nameWidth (o : Options) (program : List Node) : Nat :=
  (("indexOf" :: o.requireCallee :: o.exportsTarget ::
    (Node.walkAll program).flatMap Node.written).map String.length).max (by simp)

theorem length_le_nameWidth {o : Options} {program : List Node} {name : String}
    (h : name ∈ "indexOf" :: o.requireCallee :: o.exportsTarget ::
      (Node.walkAll program).flatMap Node.written) : name.length ≤ nameWidth o program :=
  List.le_max_of_mem (List.mem_map_of_mem h)

def longStem (width : Nat) : Stem where
  text := String.ofList (List.replicate (width + 1) '$')
  valid := by
    rw [Stem.fault?_eq_none_iff, String.toList_ofList, List.replicate_succ]
    constructor
    · simp [Stem.isIdentifier, Stem.isStemChar]
    · simp [isLoopIndex]

theorem lt_length_numbered (width n : Nat) : width < ((longStem width).numbered n).length := by
  rw [← String.length_toList, Stem.toList_numbered]
  simp [longStem]
  omega

/-- What an outline says of the lowering of a program that begins with any registry: it draws as
many temporaries as there are holes, gives the output with the holes filled, and declares those of
its names that were not declared before. -/
def Describes (o : Options) (program : List Node) (x : Outline) : Prop :=
  ∀ strategy start es ws r,
    Lowers { o with temporaries := strategy } (.block program) 0 start es [] ws r → start.Sound →
    (∀ node ∈ Node.walkAll program, ∀ name ∈ node.names, name ∈ start.reserved) →
      ∃ temporaries, r.drawn = start.drawn ++ temporaries ∧
        temporaries.length = x.holes.length ∧ es = (x.fill temporaries).body ∧ ws = x.warnings ∧
        r.introduced = start.introduced ++
          (x.fill temporaries).names.filter (· ∉ start.introduced)

section Describes

variable {o : Options} {program : List Node} {x : Outline} {temporaries : List String}

theorem keeps_fillName (hlength : temporaries.length = x.holes.length)
    (hlong : ∀ hole ∈ x.holes, nameWidth o program < hole.length)
    (hindex : ∀ hole ∈ x.holes, isLoopIndex hole = false) :
    Keeps o (nameWidth o program) (x.fillName temporaries) := by
  constructor
  · intro name hname
    apply x.fillName_eq_self hlength
    intro hhole
    have := hlong name hhole
    omega
  · intro depth
    apply x.fillName_eq_self hlength
    intro hhole
    have hfalse := hindex _ hhole
    rw [isLoopIndex_loopIndex] at hfalse
    cases hfalse
  · exact length_le_nameWidth (by simp)
  · exact length_le_nameWidth (by simp)
  · exact length_le_nameWidth (by simp)

theorem settled_of_reserved {reserved : List String}
    (h : ∀ node ∈ Node.walkAll program, ∀ name ∈ node.names, name ∈ reserved) :
    Settled (nameWidth o program) reserved program := by
  intro node hnode
  refine ⟨fun name hname => length_le_nameWidth ?_, h node hnode⟩
  exact .tail _ (.tail _ (.tail _ (List.mem_flatMap.2 ⟨node, hnode, hname⟩)))

/-- A run that draws long names gives the outline of its program. -/
theorem describes_of_lowers {r r' : Registry} (hdrawn : r.drawn = [])
    (hintroduced : r.introduced = [])
    (h : Lowers o (.block program) 0 r x.body [] x.warnings r') (hholes : r'.drawn = x.holes)
    (hnames : r'.introduced = x.names) (hlong : ∀ hole ∈ x.holes, nameWidth o program < hole.length)
    (hindex : ∀ hole ∈ x.holes, isLoopIndex hole = false) : Describes o program x := by
  intro strategy start es ws s hs hsound hreserved
  obtain ⟨temporaries, htemporaries⟩ := drawn_prefix_of_lowers hs
  have hlength : temporaries.length = x.holes.length := by
    have hlength₁ := length_drawn_of_lowers h
    have hlength₂ := length_drawn_of_lowers hs
    rw [hholes, hdrawn, List.length_nil, Nat.zero_add] at hlength₁
    rw [← htemporaries, List.length_append, Nat.add_left_cancel_iff] at hlength₂
    rw [hlength₁, hlength₂]
  have hafter : s.drawn = start.drawn ++ r'.drawn.map (x.fillName temporaries) := by
    rw [← htemporaries, hholes, x.map_fillName_holes hlength]
  have hstep := inStep_of_lowers (keeps_fillName hlength hlong hindex) h hs
    (settled_of_reserved hreserved) (tracks_start hdrawn hintroduced hsound) hafter
  refine ⟨temporaries, htemporaries.symm, hlength, hstep.output, hstep.warnings, ?_⟩
  rw [hstep.registry.introduced, hnames]
  rfl

theorem exists_describes (o : Options) (program : List Node) :
    ∃ x, x.holes.length = arrayLoops program ∧ Describes o program x := by
  let stem := longStem (nameWidth o program)
  obtain ⟨lowered, hlowered⟩ := exists_lowerProgram_of_counter
    (o := { o with temporaries := .counter stem }) rfl (.ofSeed 0) program
  obtain ⟨r, hlowers, -, -⟩ := lowers_of_lowerProgram hlowered
  have hsound : r.Sound :=
    sound_of_lowers hlowers (Registry.sound_of_drawn_eq_nil (drawn_initialContext ..))
  have hnumbers : r.AllNumbered stem := by
    refine registry_induction (P := Registry.AllNumbered stem) ?_ ?_ hlowers ⟨?_, ?_⟩
    · exact fun r name hr => hr.introduce name
    · exact fun r name r' hfresh hr => hr.fresh hfresh
    · exact ⟨0, generator_initialContext ..⟩
    · simp [drawn_initialContext]
  have hlong : ∀ hole ∈ r.drawn, nameWidth o program < hole.length := by
    intro hole hhole
    obtain ⟨n, rfl⟩ := hnumbers.drawn hole hhole
    exact lt_length_numbered _ n
  refine ⟨⟨r.drawn, lowered.body, r.introduced, lowered.warnings, hsound.nodup⟩, ?_, ?_⟩
  · have hlength := length_drawn_of_lowers hlowers
    rwa [drawn_initialContext, List.length_nil, Nat.zero_add] at hlength
  · show Describes { o with temporaries := .counter stem } program _
    exact describes_of_lowers (drawn_initialContext ..) (introduced_initialContext ..) hlowers rfl
      rfl hlong hsound.isLoopIndex

end Describes

/-- The outline of a program: whatever the strategy, the key and the patience of the draws, the
temporaries of an output are distinct, there is one for each hole, and the output is the outline
with the `i`-th temporary in hole `i`. -/
def Outlines (o : Options) (program : List Node) (x : Outline) : Prop :=
  ∀ strategy supply lowered,
    lowerProgram { o with temporaries := strategy } supply program = some lowered →
      lowered.temporaries.Nodup ∧ lowered.temporaries.length = x.holes.length ∧
        lowered = x.fill lowered.temporaries

theorem mem_reserved_of_mem_names {o : Options} {supply : Supply} {program : List Node}
    {node : Node} (hnode : node ∈ Node.walkAll program) {name : String}
    (hname : name ∈ node.names) :
    name ∈ (initialContext o supply program).registry.reserved := by
  apply mem_reserved_initialContext
  exact List.mem_append_left _ (List.mem_flatMap.2 ⟨node, hnode, hname⟩)

/-- From a registry without declared names all names of the outline are declared. -/
theorem Describes.of_start {o : Options} {program : List Node} {x : Outline}
    (h : Describes o program x) (strategy : Strategy) {start r : Registry} {es : List ESTree}
    {ws : List Warning} (hdrawn : start.drawn = []) (hintroduced : start.introduced = [])
    (hlowers : Lowers { o with temporaries := strategy } (.block program) 0 start es [] ws r)
    (hreserved : ∀ node ∈ Node.walkAll program, ∀ name ∈ node.names, name ∈ start.reserved) :
    r.drawn.length = x.holes.length ∧ es = (x.fill r.drawn).body ∧ ws = x.warnings ∧
      r.introduced = (x.fill r.drawn).names := by
  obtain ⟨temporaries, htemporaries, hlength, hbody, hwarnings, hnames⟩ :=
    h strategy _ _ _ _ hlowers (Registry.sound_of_drawn_eq_nil hdrawn) hreserved
  have hall : (x.fill temporaries).names.filter (· ∉ []) = (x.fill temporaries).names := by simp
  rw [hdrawn, List.nil_append] at htemporaries
  rw [hintroduced, List.nil_append, hall] at hnames
  rw [htemporaries]
  exact ⟨hlength, hbody, hwarnings, hnames⟩

theorem outlines_of_describes {o : Options} {program : List Node} {x : Outline}
    (h : Describes o program x) : Outlines o program x := by
  intro strategy supply lowered hlowered
  obtain ⟨r, hlowers, hnames, htemporaries⟩ := lowers_of_lowerProgram hlowered
  have hdrawn := drawn_initialContext { o with temporaries := strategy } supply program
  obtain ⟨hlength, hbody, hwarnings, hintroduced⟩ :=
    h.of_start strategy hdrawn (introduced_initialContext ..) hlowers
      fun _ hnode _ hname => mem_reserved_of_mem_names hnode hname
  rw [htemporaries]
  refine ⟨?_, hlength, ?_⟩
  · exact (sound_of_lowers hlowers (Registry.sound_of_drawn_eq_nil hdrawn)).nodup
  · rw [← hnames] at hintroduced
    cases lowered
    simp_all [Outline.fill]

/-- The strategy for temporaries fills holes and does nothing else: every program has one outline
for all strategies.  With a counter there is an output to compare with it. -/
theorem exists_outline (o : Options) (program : List Node) :
    ∃ x : Outline, Outlines o program x ∧ x.holes.length = arrayLoops program ∧
      ∀ stem supply, ∃ lowered,
        lowerProgram { o with temporaries := .counter stem } supply program = some lowered := by
  obtain ⟨x, hlength, hx⟩ := exists_describes o program
  refine ⟨x, outlines_of_describes hx, hlength, ?_⟩
  intro stem supply
  exact exists_lowerProgram_of_counter rfl supply program

end Lowering

end LijsCompiler
