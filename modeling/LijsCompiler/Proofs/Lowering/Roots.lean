import LijsCompiler.Proofs.Lowering.DottedNames

/-!
# Temporaries and the roots of names

A name with dots stands for a member of its first segment, and that segment is the variable that a
temporary could be mistaken for.  Before a program is lowered the text before the first dot of each
of its names is reserved, and likewise of the two names that the options choose.  This is the first
segment, with two exceptions: names of functions and parameters are reserved with their dots, and of
a name that begins with a dot the empty text is reserved.  Outside of these exceptions no
temporary is the first segment of a name (`temporary_ne_root`).
-/

namespace LijsCompiler

open ESTree

namespace Name

def first? (name : String) : Option String := (members name).head?

theorem first?_eq_some_root {name : String} (hrooted : IsRooted name) {segment : String}
    (h : first? name = some segment) : segment = root name := by
  by_cases hroot : root name = ""
  · obtain rfl := eq_empty_of_root_eq_empty hrooted hroot
    cases h
  · obtain ⟨others, hmembers⟩ := exists_members_eq_root_cons hroot
    rw [first?, hmembers] at h
    exact (Option.some.inj h).symm

theorem isRooted_of_not_isDotted {name : String} (h : isDotted name = false) : IsRooted name := by
  rw [isDotted_eq_false_iff] at h
  intro hhead
  exact h (List.mem_of_head? hhead)

end Name

theorem ESTree.vars_path_of_members_eq_nil {name : String} (h : Name.members name = []) :
    (path name).vars = [name] := by
  unfold path
  rw [h]
  rfl

/-- The root of a name is reserved for its construct, unless it names a function or a parameter and
has dots. -/
theorem Node.root_mem_names {node : Node} {name : String} (h : name ∈ node.written)
    (hsignature : name ∈ node.signature → Name.isDotted name = false) :
    Name.root name ∈ node.names := by
  cases node with
  | function f params body =>
      rw [Name.root_eq_self (hsignature h)]
      exact h
  | useModule path binding => cases binding <;> simp_all [written, names]
  | _ => simp_all [written, names]

namespace Lowering

section Temporaries

variable {o : Options} {supply : Supply} {program : List Node} {lowered : Lowered}
  (h : lowerProgram o supply program = some lowered)

include h

theorem not_mem_reservedNames_of_mem_temporaries {t : String} (ht : t ∈ lowered.temporaries) :
    t ∉ reservedNames o program := by
  obtain ⟨r, hlowers, -, hdrawn⟩ := lowers_of_lowerProgram h
  have hstart := drawn_initialContext o supply program
  have hsound : r.Sound := sound_of_lowers hlowers (Registry.sound_of_drawn_eq_nil hstart)
  intro hmem
  rw [hdrawn] at ht
  apply hsound.not_mem_reserved t ht
  rw [reserved_of_lowers hlowers]
  exact mem_reserved_initialContext hmem

theorem isDotted_of_mem_temporaries {t : String} (ht : t ∈ lowered.temporaries) :
    Name.isDotted t = false := by
  obtain ⟨r, hlowers, -, hdrawn⟩ := lowers_of_lowerProgram h
  have hall : ∀ name ∈ r.drawn, Name.isDotted name = false := by
    refine registry_induction (P := fun s => ∀ name ∈ s.drawn, Name.isDotted name = false) ?_ ?_
      hlowers (by simp [drawn_initialContext])
    · intro s name hs
      rwa [Registry.drawn_introduce]
    · intro s name s' hfresh hs
      rw [(Registry.draws_of_fresh? hfresh).drawn, List.forall_mem_append,
        List.forall_mem_singleton]
      exact ⟨hs, Registry.isDotted_of_fresh? hfresh⟩
  rw [hdrawn] at ht
  exact hall t ht

end Temporaries

end Lowering

/-- Let a program come from a source.  A temporary is not the first segment of a name that the
program writes, unless the name has dots and stands for a function or a parameter; and it is not the
variable in what stands for the function that loads modules or for the object of exports, unless
the options begin that name with a dot and a segment follows. -/
theorem temporary_ne_root {source : String} {program : List Node} {o : Options}
    {supply : Supply} {lowered : Lowered} (hparse : parseSource source = .ok program)
    (h : Lowering.lowerProgram o supply program = some lowered) {t : String}
    (ht : t ∈ lowered.temporaries) :
    (∀ node ∈ Node.walkAll program, ∀ name ∈ node.written,
        (name ∈ node.signature → Name.isDotted name = false) → Name.first? name ≠ some t) ∧
      ∀ name ∈ [o.requireCallee, o.exportsTarget],
        Name.IsRooted name ∨ Name.members name = [] → t ∉ (path name).vars := by
  have hfree := Lowering.not_mem_reservedNames_of_mem_temporaries h ht
  rw [Lowering.reservedNames, List.mem_append, not_or, List.mem_flatMap] at hfree
  obtain ⟨hprogram, hoptions⟩ := hfree
  constructor
  · intro node hnode name hname hsignature hfirst
    have hrooted := Node.writesOnly_isRooted hparse node hnode name hname
    obtain rfl := Name.first?_eq_some_root hrooted hfirst
    exact hprogram ⟨node, hnode, Node.root_mem_names hname hsignature⟩
  · intro name hname hspelling hvar
    have hroot : t ≠ Name.root name := by
      rintro rfl
      apply hoptions
      simp only [List.mem_cons, List.not_mem_nil, or_false] at hname ⊢
      rcases hname with rfl | rfl
      · exact .inr (.inl rfl)
      · exact .inr (.inr rfl)
    by_cases hrooted : Name.IsRooted name
    · rw [vars_path hrooted, List.mem_singleton] at hvar
      exact hroot hvar
    · -- the name is of dots only, and a temporary has none
      rw [vars_path_of_members_eq_nil (hspelling.resolve_left hrooted), List.mem_singleton] at hvar
      have hundotted := Lowering.isDotted_of_mem_temporaries h ht
      rw [hvar] at hundotted
      exact hrooted (Name.isRooted_of_not_isDotted hundotted)

/-- The counter passes over the root of an assigned name and that of the function that loads
modules.  The object of exports has a name of dots only. -/
theorem temporary_ne_root_third_candidate :
    ∃ program lowered, parseSource "$t0..x 1 @[2](f item)" = .ok program ∧
      Lowering.lowerProgram ⟨"t1.load", "..", .counter ⟨"t", by decide⟩⟩ (.ofSeed 0) program =
        some lowered ∧ lowered.temporaries = ["t2"] ∧
      (∀ node ∈ Node.walkAll program, ∀ name ∈ node.written, Name.first? name ≠ some "t2") ∧
      "t2" ∉ (path "t1.load").vars ∧ "t2" ∉ (path "..").vars := by
  have hrun : ((parseSource "$t0..x 1 @[2](f item)").toOption.bind fun program =>
      (Lowering.lowerProgram ⟨"t1.load", "..", .counter ⟨"t", by decide⟩⟩ (.ofSeed 0) program).map
        fun lowered => ((Node.walkAll program).flatMap Node.signature, lowered.temporaries)) =
      some ([], ["t2"]) := by
    decide +kernel
  obtain ⟨program, hprogram, hrun⟩ := Option.bind_eq_some_iff.1 hrun
  obtain ⟨lowered, hlowered, hpair⟩ := Option.map_eq_some_iff.1 hrun
  obtain ⟨hsignatures, htemporaries⟩ := Prod.mk.inj hpair
  have hparse := eq_ok_of_toOption_eq_some hprogram
  have hdrawn : "t2" ∈ lowered.temporaries := by simp [htemporaries]
  obtain ⟨hnames, hoptions⟩ := temporary_ne_root hparse hlowered hdrawn
  refine ⟨program, lowered, hparse, hlowered, htemporaries, ?_, ?_, ?_⟩
  · intro node hnode name hname
    refine hnames node hnode name hname fun hsignature => ?_
    rw [List.flatMap_eq_nil_iff] at hsignatures
    simp [hsignatures node hnode] at hsignature
  · exact hoptions _ (by simp) (.inl (by decide))
  · exact hoptions _ (by simp) (.inr (by decide))

/-- A temporary is the variable of what loads modules, whose name begins with a dot, or the first
segment of the name of a function. -/
theorem exists_temporary_eq_root :
    (∃ program lowered, parseSource "use 'x' @[1](f item)" = .ok program ∧
      Lowering.lowerProgram ⟨"._t0", "module.exports", .standard⟩ (.ofSeed 0) program =
        some lowered ∧ lowered.temporaries = ["_t0"] ∧ "_t0" ∈ (path "._t0").vars) ∧
    ∃ program lowered, parseSource "def t0.x[]\x7b\x7d @[1](f item)" = .ok program ∧
      Lowering.lowerProgram ⟨"require", "module.exports", .counter ⟨"t", by decide⟩⟩ (.ofSeed 0)
        program = some lowered ∧ lowered.temporaries = ["t0"] ∧
      ∃ node ∈ Node.walkAll program, "t0.x" ∈ node.written ∧ Name.first? "t0.x" = some "t0" := by
  constructor
  · have hrun : ((parseSource "use 'x' @[1](f item)").toOption.bind fun program =>
        (Lowering.lowerProgram ⟨"._t0", "module.exports", .standard⟩ (.ofSeed 0) program).map
          (·.temporaries)) = some ["_t0"] := by
      decide +kernel
    obtain ⟨program, hprogram, hrun⟩ := Option.bind_eq_some_iff.1 hrun
    obtain ⟨lowered, hlowered, htemporaries⟩ := Option.map_eq_some_iff.1 hrun
    exact ⟨program, lowered, eq_ok_of_toOption_eq_some hprogram, hlowered, htemporaries,
      by decide +kernel⟩
  · have hrun : ((parseSource "def t0.x[]\x7b\x7d @[1](f item)").toOption.bind fun program =>
        (Lowering.lowerProgram ⟨"require", "module.exports", .counter ⟨"t", by decide⟩⟩ (.ofSeed 0)
          program).map fun lowered =>
            ((Node.walkAll program).flatMap Node.signature, lowered.temporaries)) =
        some (["t0.x"], ["t0"]) := by
      decide +kernel
    obtain ⟨program, hprogram, hrun⟩ := Option.bind_eq_some_iff.1 hrun
    obtain ⟨lowered, hlowered, hpair⟩ := Option.map_eq_some_iff.1 hrun
    obtain ⟨hsignatures, htemporaries⟩ := Prod.mk.inj hpair
    have hmem : "t0.x" ∈ (Node.walkAll program).flatMap Node.signature := by
      rw [hsignatures, List.mem_singleton]
    obtain ⟨node, hnode, hname⟩ := List.mem_flatMap.1 hmem
    have hwritten : "t0.x" ∈ node.written := by
      cases node with
      | function f params body => exact hname
      | _ => cases hname
    exact ⟨program, lowered, eq_ok_of_toOption_eq_some hprogram, hlowered, htemporaries, node,
      hnode, hwritten, by decide +kernel⟩

end LijsCompiler
