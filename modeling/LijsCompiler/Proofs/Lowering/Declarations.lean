import LijsCompiler.Proofs.ESTree.Declarations
import LijsCompiler.Proofs.Lowering.Outline
import LijsCompiler.Proofs.Lowering.Warnings
import LijsCompiler.Proofs.Parser.Names
import LijsCompiler.Proofs.Registry.Runs

/-!
# Declared names

The list of names that comes with the output is kept by the registry, and the declarations of the
output are built apart from it.  Whatever is lowered, the registry gains the names that its output
and what it hoists declare, and no others (`mem_introduced_of_lowers`).  So the list holds
exactly the declared names of the output.
-/

namespace LijsCompiler

open ESTree

/-! ## What a faultless list of names is -/

theorem namesFaultAfter?_eq_none {names : List String} (hnodup : names.Nodup)
    (hdigit : ∀ name ∈ names, Name.startsWithDigit name = false) {seen : List String}
    (hseen : ∀ name ∈ names, name ∉ seen) : namesFaultAfter? seen names = none := by
  induction names generalizing seen with
  | nil => rfl
  | cons name names ih =>
      rw [List.nodup_cons] at hnodup
      rw [List.forall_mem_cons] at hdigit hseen
      rw [namesFaultAfter?, hdigit.1, if_neg Bool.false_ne_true, if_neg hseen.1]
      apply ih hnodup.2 hdigit.2
      intro other hother
      rw [List.mem_cons, not_or]
      exact ⟨ne_of_mem_of_not_mem hother hnodup.1, hseen.2 other hother⟩

theorem Name.startsWithDigit_of_isName {name : String} (h : Token.IsName name.toList) :
    startsWithDigit name = false := by
  obtain ⟨c, rest, hcs, hc, -⟩ := h
  unfold startsWithDigit
  rw [hcs]
  by_cases hdigit : c.isDigit
  · exact absurd hc (Token.not_isAlpha_of_isDigit hdigit)
  · simpa using hdigit

namespace Registry

theorem mem_introduced_bind {r : Registry} {name other : String} :
    other ∈ (r.bind name).introduced ↔
      other ∈ r.introduced ∨ Name.isDotted name = false ∧ other = name := by
  unfold bind
  split
  · rename_i hdotted
    simp [hdotted]
  · rename_i hplain
    simp [hplain, mem_introduced_introduce]

theorem mem_introduced_define {r : Registry} {name other : String} {params : List String} :
    other ∈ (r.define name params).introduced ↔
      other ∈ r.introduced ∨ Name.isDotted name = false ∧ other = name ∨ other ∈ params := by
  have hparams (r : Registry) :
      other ∈ (params.foldl introduce r).introduced ↔ other ∈ r.introduced ∨ other ∈ params := by
    induction params generalizing r with
    | nil => simp
    | cons param params ih =>
        rw [List.foldl_cons, ih, mem_introduced_introduce, List.mem_cons, or_assoc]
  rw [define, hparams, mem_introduced_bind, or_assoc]

end Registry

namespace Lowering

/-! ## What the trees of the rules declare -/

@[simp] theorem declared_embed (place : Place) (e : ESTree) :
    (place.embed e).declared .ordinary = e.declared .ordinary := by
  cases place with
  | statement => rw [Place.embed, declared]
  | value => rfl

theorem mem_declared_bound {name other : String} {init : ESTree} :
    other ∈ (bound name init).declared .ordinary ↔
      Name.isDotted name = false ∧ other = name ∨ other ∈ init.declared .ordinary := by
  unfold bound
  split
  · rename_i hdotted
    simp [hdotted, declared]
  · rename_i hplain
    simp [hplain]

@[simp] theorem declared_require (o : Options) (path : String) :
    (require o path).declared .ordinary = [] := by
  simp [require, declared, declaredAll]

@[simp] theorem declared_exported (o : Options) (name : String) :
    (exported o name).declared .ordinary = [] := by
  simp [exported, declared]

@[simp] theorem declared_numberLiteral (text : String) :
    (numberLiteral text).declared .ordinary = [] := rfl

theorem declared_resultOf (e : ESTree) :
    (resultOf e).declared .ordinary = e.declared .ordinary := by
  unfold resultOf
  split
  · simp [declared, declaredOption]
  · split
    · simp [declared, declaredOption]
    · rfl

@[simp] theorem declaredNames_withResult (body : List Node) (ss : List ESTree) :
    declaredNames (withResult body ss) = declaredNames ss := by
  rcases List.eq_nil_or_concat ss with rfl | ⟨before, last, rfl⟩
  · rw [withResult_nil]
  · rw [List.concat_eq_append]
    rcases withResult_concat body before last with h | h
    · rw [h]
    · rw [h, declaredNames_append, declaredNames_append, declaredNames_cons, declaredNames_cons,
        declared_resultOf]

theorem mem_declared_function {name other : String} {params : List String} {ss : List ESTree} :
    other ∈ (functionDeclaration (identifier name) (params.map identifier) []
        (blockStatement ss)).declared .ordinary ↔
      Name.isDotted name = false ∧ other = name ∨ other ∈ params ∨ other ∈ declaredNames ss := by
  have hparams : (params.map identifier).filterMap name? = params := by
    rw [List.filterMap_map]
    exact List.filterMap_some
  cases hdotted : Name.isDotted name <;>
    simp [declared, name?, hparams, hdotted, declaredAll]

/-- The source of a loop stands in it twice.  The index and the element do not count. -/
theorem mem_declared_countingLoop {source : ESTree} {i other : String} {body : List ESTree} :
    other ∈ (countingLoop source i body).declared .ordinary ↔
      other ∈ source.declared .ordinary ∨ other ∈ declaredNames body := by
  simp [countingLoop, declared, declaredAll]

/-- A test declares what its operands do, as long as none is left out. -/
theorem declared_testOf {check : Check} {l : ESTree} {rs : List ESTree}
    (hlength : rs.length = if check = .present then 0 else 1) :
    (testOf check l rs.head?).declared .ordinary = declaredNames (l :: rs) := by
  rcases rs with _ | ⟨x, _ | ⟨y, others⟩⟩
  · cases check <;> simp [testOf]
  · cases check with
    | equal | similar | contains => simp [testOf, declared, declaredAll]
    | present => simp at hlength
  · cases check <;> simp at hlength

theorem declared_returnStatement {values : List ESTree} (hlength : values.length ≤ 1) :
    (returnStatement values.head?).declared .ordinary = declaredNames values := by
  rcases values with _ | ⟨value, _ | ⟨other, others⟩⟩
  · simp [declared, declaredOption]
  · simp [declared, declaredOption]
  · simp at hlength

/-! ## Names and declarations -/

section Lowers

variable {o : Options} {form : Form} {depth : Nat} {r r' : Registry} {es hs : List ESTree}
  {ws : List Warning}

/-- The registry gains the names that the output declares. -/
theorem mem_introduced_of_lowers (h : Lowers o form depth r es hs ws r')
    (hwf : Node.WellFormed form.nodes) {name : String} :
    name ∈ r'.introduced ↔
      name ∈ r.introduced ∨ name ∈ declaredNames hs ∨ name ∈ declaredNames es := by
  induction h with
  | identifier | integer | float | string | useModule | exportName | noValues | emptyBlock => simp
  | create => simp [Registry.mem_introduced_bind, mem_declared_bound, declared, declaredAll]
  | useModuleAs => simp [Registry.mem_introduced_bind, mem_declared_bound]
  | array _ ih | call _ ih | get _ ih | set _ ih | arithmetic _ ih =>
      rw [ih (wellFormed_children hwf)]
      simp [declared]
  | assignment _ ih =>
      rw [Registry.mem_introduced_bind, ih (wellFormed_children hwf)]
      simp only [declaredNames_cons, declaredNames_nil, List.append_nil, mem_declared_bound]
      grind
  | @result place value depth r r' es hs ws hvalue ih =>
      have hlength : es.length ≤ 1 := by
        rw [length_of_lowers_values hvalue]
        cases value <;> simp
      rw [ih (wellFormed_children hwf)]
      simp [declared_returnStatement hlength]
  | function _ ih =>
      rw [ih (wellFormed_children hwf), Registry.mem_introduced_define]
      simp only [declaredNames_cons, declaredNames_nil, List.append_nil, mem_declared_function,
        declaredNames_withResult, List.not_mem_nil, false_or]
      grind
  | iteratorArray _ hfresh _ ihsource ihbody =>
      obtain ⟨hsource, hbody⟩ := Node.wellFormed_cons.1 (wellFormed_children hwf)
      -- the drawn name is declared by what the loop hoists, with the array as its value
      have hdraws := Registry.draws_of_fresh? hfresh
      rw [ihbody hbody, hdraws.introduced, List.mem_append, List.mem_singleton, ihsource hsource]
      simp only [declaredNames_append, declaredNames_cons, declaredNames_nil, List.append_nil,
        List.mem_append, mem_declared_countingLoop, declared_declare, declared_identifier,
        List.mem_cons, List.not_mem_nil, false_or]
      grind
  | iterator _ _ _ ihsource ihbody =>
      obtain ⟨hsource, hbody⟩ := Node.wellFormed_cons.1 (wellFormed_children hwf)
      rw [ihbody hbody, ihsource hsource]
      simp only [declaredNames_cons, declaredNames_nil, List.append_nil,
        mem_declared_countingLoop, List.not_mem_nil, false_or]
      grind
  | conditional hoperands _ ihoperands ihpass =>
      obtain ⟨hright, hleft, hpass, -⟩ := wellFormed_conditional hwf
      rw [ihpass hpass, ihoperands hleft,
        ← declared_testOf (length_operands_of_lowers hright hoperands)]
      simp [declared, declaredOption, or_assoc]
  | conditionalElse hoperands _ _ ihoperands ihpass ihfail =>
      obtain ⟨hright, hleft, hpass, hfail⟩ := wellFormed_conditional hwf
      rw [ihfail hfail, ihpass hpass, ihoperands hleft,
        ← declared_testOf (length_operands_of_lowers hright hoperands)]
      simp [declared, declaredOption, or_assoc]
  | values _ _ ihnode ihnodes =>
      obtain ⟨hnode, hnodes⟩ := Node.wellFormed_cons.1 hwf
      rw [ihnodes hnodes, ihnode hnode]
      simp only [declaredNames_append, declaredNames_cons, declaredNames_nil, List.append_nil,
        List.mem_append]
      grind
  | block _ _ ihnode ihnodes =>
      obtain ⟨hnode, hnodes⟩ := Node.wellFormed_cons.1 hwf
      rw [ihnodes hnodes, ihnode hnode]
      simp only [declaredNames_append, declaredNames_cons, declaredNames_nil, List.append_nil,
        List.mem_append, List.not_mem_nil, false_or]
      grind

/-- What holds of every name that a program writes and of every temporary holds of all names that
are declared. -/
theorem forall_mem_introduced_of_lowers {P : String → Prop}
    (hdraws : ∀ r name r', Registry.Draws r name r' → P name)
    (h : Lowers o form depth r es hs ws r') (hwrites : Node.WritesOnly P form.nodes)
    (hr : ∀ name ∈ r.introduced, P name) : ∀ name ∈ r'.introduced, P name := by
  have hbind {r : Registry} {name : String} (hr : ∀ name ∈ r.introduced, P name) (hname : P name) :
      ∀ other ∈ (r.bind name).introduced, P other := by
    intro other hother
    rcases Registry.mem_introduced_bind.1 hother with hold | ⟨-, rfl⟩
    · exact hr other hold
    · exact hname
  induction h with
  | identifier | integer | float | string | useModule | exportName | noValues | emptyBlock =>
      exact hr
  | array _ ih | get _ ih | set _ ih | call _ ih | result _ ih | arithmetic _ ih =>
      exact ih (Node.writesOnly_singleton.1 hwrites).2 hr
  | assignment _ ih =>
      obtain ⟨hwritten, hvalue⟩ := Node.writesOnly_singleton.1 hwrites
      exact hbind (ih hvalue hr) (hwritten _ (by simp [Node.written]))
  | create | useModuleAs =>
      exact hbind hr ((Node.writesOnly_singleton.1 hwrites).1 _ (by simp [Node.written]))
  | function _ ih =>
      obtain ⟨hwritten, hbody⟩ := Node.writesOnly_singleton.1 hwrites
      rw [Node.written, List.forall_mem_cons] at hwritten
      apply ih hbody
      intro other hother
      rcases Registry.mem_introduced_define.1 hother with hold | ⟨-, rfl⟩ | hparam
      · exact hr other hold
      · exact hwritten.1
      · exact hwritten.2 other hparam
  | iteratorArray _ hfresh _ ihsource ihbody =>
      obtain ⟨hsource, hbody⟩ := Node.writesOnly_cons.1 (Node.writesOnly_singleton.1 hwrites).2
      have hdraw := Registry.draws_of_fresh? hfresh
      apply ihbody hbody
      rw [hdraw.introduced, List.forall_mem_append, List.forall_mem_singleton]
      exact ⟨ihsource hsource hr, hdraws _ _ _ hdraw⟩
  | iterator _ _ _ ihsource ihbody =>
      obtain ⟨hsource, hbody⟩ := Node.writesOnly_cons.1 (Node.writesOnly_singleton.1 hwrites).2
      exact ihbody hbody (ihsource hsource hr)
  | conditional _ _ ihoperands ihpass =>
      have hparts := (Node.writesOnly_singleton.1 hwrites).2
      rw [Node.children, Node.writesOnly_append, Node.writesOnly_append] at hparts
      exact ihpass hparts.1.2 (ihoperands hparts.1.1 hr)
  | conditionalElse _ _ _ ihoperands ihpass ihfail =>
      have hparts := (Node.writesOnly_singleton.1 hwrites).2
      rw [Node.children, Node.writesOnly_append, Node.writesOnly_append] at hparts
      exact ihfail hparts.2 (ihpass hparts.1.2 (ihoperands hparts.1.1 hr))
  | values _ _ ihnode ihnodes | block _ _ ihnode ihnodes =>
      obtain ⟨hnode, hnodes⟩ := Node.writesOnly_cons.1 hwrites
      exact ihnodes hnodes (ihnode hnode hr)

theorem nodup_introduced_of_lowers (h : Lowers o form depth r es hs ws r')
    (hr : r.introduced.Nodup) : r'.introduced.Nodup := by
  refine registry_induction (P := fun s => s.introduced.Nodup) ?_ ?_ h hr
  · intro s name hs
    exact Registry.nodup_introduced_introduce hs name
  · intro s name s' hfresh hs
    rw [(Registry.draws_of_fresh? hfresh).introduced_eq]
    exact Registry.nodup_introduced_introduce hs name

end Lowers

end Lowering

/-- The list of names that comes with the output of a source holds exactly the names that the output
declares, each of them once.  None begins with a digit, so the list is without fault.  The index and
the element that a loop declares for its own use are not among them. -/
theorem names_of_compile {c : Configuration} {supply : Supply} {source : String}
    {lowered : Lowered} (h : compile c supply source = .ok lowered) :
    lowered.names.Nodup ∧ (∀ name ∈ lowered.names, Name.startsWithDigit name = false) ∧
      namesFault? lowered.names = none ∧
      ∀ name, name ∈ lowered.names ↔ name ∈ declaredNames lowered.body := by
  obtain ⟨program, hsource, hlower⟩ := compile_eq_ok_iff.1 h
  obtain ⟨tokens, -, hparse⟩ := parseSource_eq_ok_iff.1 hsource
  obtain ⟨r, hlowers, hnames, -⟩ := Lowering.lowers_of_lowerProgram hlower
  have hstart := Lowering.introduced_initialContext c.lowering supply program
  have hnodup : lowered.names.Nodup := by
    rw [hnames]
    exact Lowering.nodup_introduced_of_lowers hlowers (by simp [hstart])
  have hdigit : ∀ name ∈ lowered.names, Name.startsWithDigit name = false := by
    rw [hnames]
    refine Lowering.forall_mem_introduced_of_lowers ?_ hlowers ?_ (by simp [hstart])
    · exact fun _ _ _ hdraws => hdraws.startsWithDigit
    · intro node hnode name hname
      exact Name.startsWithDigit_of_isName (Node.writesOnly_isName hsource node hnode name hname)
  refine ⟨hnodup, hdigit, namesFaultAfter?_eq_none hnodup hdigit (by simp), fun name => ?_⟩
  rw [hnames, Lowering.mem_introduced_of_lowers hlowers (Node.wellFormed_of_parse hparse), hstart]
  simp

/-- The function has a dot in its name, and its loop declares the variable of the element once more:
this declaration counts, the one that opens the loop does not. -/
theorem names_of_compile_item_declared_again :
    ∃ lowered, compile {} (.ofSeed 0) "def a.b[x y]\x7b@[1]$item x\x7d" = .ok lowered ∧
      lowered.names = ["x", "y", "_t0", "item"] ∧ namesFault? lowered.names = none ∧
      ∀ name, name ∈ ["x", "y", "_t0", "item"] ↔ name ∈ declaredNames lowered.body := by
  have hnames : (compile {} (.ofSeed 0) "def a.b[x y]\x7b@[1]$item x\x7d").toOption.map (·.names) =
      some ["x", "y", "_t0", "item"] := by
    decide +kernel
  obtain ⟨lowered, hlowered, hnames⟩ := Option.map_eq_some_iff.1 hnames
  have hcompile := eq_ok_of_toOption_eq_some hlowered
  obtain ⟨-, -, hfault, hdeclared⟩ := names_of_compile hcompile
  rw [hnames] at hdeclared
  exact ⟨lowered, hcompile, hnames, hfault, hdeclared⟩

end LijsCompiler
