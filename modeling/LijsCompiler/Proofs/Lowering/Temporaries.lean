import LijsCompiler.Proofs.Lowering.Draws
import LijsCompiler.Proofs.Lowering.Shape
import LijsCompiler.Proofs.Lowering.Totality
import LijsCompiler.Proofs.Parser.Names

/-!
# Temporaries are free of capture

A temporary stands in three variable positions of the output: where its array is declared, and twice
in the loop right after the declaration (`temporaries_free_of_capture`).  Two invariants of the
rules give this.  One counts: each draw adds three occurrences of the name drawn, and nothing else
adds any (`count_of_lowers`).  The other finds the declaration and its loop side by side in a list
of statements (`storesWithin_of_lowers`).
-/

namespace LijsCompiler

open ESTree

namespace Lowering

/-! ## Variables of the trees that the rules build -/

@[simp] theorem vars_embed (place : Place) (e : ESTree) : (place.embed e).vars = e.vars := by
  cases place <;> rfl

theorem vars_bound {name : String} (hrooted : Name.IsRooted name) (init : ESTree) :
    (bound name init).vars = Name.root name :: init.vars := by
  unfold bound
  by_cases hdot : Name.isDotted name
  · rw [if_pos hdot, vars, vars, vars_path hrooted]
    rfl
  · rw [if_neg hdot, vars_declare, Name.root_eq_self (by simpa using hdot)]

@[simp] theorem vars_numberLiteral (text : String) : (numberLiteral text).vars = [] := rfl

@[simp] theorem vars_require (o : Options) (text : String) :
    (require o text).vars = (path o.requireCallee).vars := by
  rw [require, vars]
  exact List.append_nil _

@[simp] theorem vars_exported (o : Options) (name : String) :
    (exported o name).vars = (path o.exportsTarget).vars ++ (path name).vars := by
  rw [exported, vars, vars_member]

@[simp] theorem vars_resultOf (e : ESTree) : (resultOf e).vars = e.vars := by
  unfold resultOf
  split
  · rfl
  · split <;> rfl

@[simp] theorem varsAll_withResult (body : List Node) (ss : List ESTree) :
    varsAll (withResult body ss) = varsAll ss := by
  rcases List.eq_nil_or_concat ss with rfl | ⟨before, last, rfl⟩
  · rw [withResult_nil]
  · rw [List.concat_eq_append]
    rcases withResult_concat body before last with h | h
    · rw [h]
    · rw [h, varsAll_append, varsAll_append, varsAll_cons, varsAll_cons, vars_resultOf]

/-- The source of a counting loop stands in it twice. -/
theorem vars_countingLoop (source : ESTree) (i : String) (ss : List ESTree) :
    (countingLoop source i ss).vars =
      [i, i] ++ source.vars ++ [i, itemName] ++ source.vars ++ [i] ++ varsAll ss := by
  simp [countingLoop, vars]

theorem mem_vars_of_mem_testOf {check : Check} {l : ESTree} {rs : List ESTree}
    {name : String} (h : name ∈ (testOf check l rs.head?).vars) :
    name ∈ varsAll (l :: rs) := by
  cases rs with
  | nil => cases check <;> simpa [testOf] using h
  | cons x others => cases check <;> simp_all [testOf, vars] <;> grind

/-! ## Each draw adds three occurrences -/

/-- A name that is not among those that lowering writes of its own accord. -/
structure IsUnwritten (o : Options) (name : String) : Prop where
  isLoopIndex : isLoopIndex name = false
  ne_item : name ≠ itemName
  not_mem_require : name ∉ (path o.requireCallee).vars
  not_mem_exports : name ∉ (path o.exportsTarget).vars

/-- No node writes the name, and what the nodes write begins with no dot. -/
def Avoids (name : String) (nodes : List Node) : Prop :=
  ∀ node ∈ Node.walkAll nodes, name ∉ node.names ∧ ∀ other ∈ node.written, Name.IsRooted other

theorem avoids_singleton {name : String} {node : Node} :
    Avoids name [node] ↔
      (name ∉ node.names ∧ ∀ other ∈ node.written, Name.IsRooted other) ∧
        Avoids name node.children :=
  Node.forall_mem_walkAll_singleton

theorem avoids_cons {name : String} {node : Node} {nodes : List Node} :
    Avoids name (node :: nodes) ↔ Avoids name [node] ∧ Avoids name nodes :=
  Node.forall_mem_walkAll_cons

theorem avoids_append {name : String} {nodes others : List Node} :
    Avoids name (nodes ++ others) ↔ Avoids name nodes ∧ Avoids name others :=
  Node.forall_mem_walkAll_append

/-- Of a construct that writes one name the root of that name is avoided. -/
theorem Avoids.root {name other : String} {node : Node} (h : Avoids name [node])
    (hwritten : node.written = [other]) (hnames : node.names = [Name.root other]) :
    Name.IsRooted other ∧ name ≠ Name.root other ∧ Avoids name node.children := by
  obtain ⟨⟨hname, hrooted⟩, hparts⟩ := avoids_singleton.1 h
  rw [hwritten, List.forall_mem_singleton] at hrooted
  rw [hnames, List.mem_singleton] at hname
  exact ⟨hrooted, hname, hparts⟩

section Count

variable {o : Options} {name : String}

theorem count_path {other : String} (hother : Name.IsRooted other)
    (h : name ≠ Name.root other) : (path other).vars.count name = 0 := by
  rw [vars_path hother, List.count_eq_zero]
  simpa using h

theorem count_bound {other : String} (hother : Name.IsRooted other)
    (h : name ≠ Name.root other) (init : ESTree) :
    (bound other init).vars.count name = init.vars.count name := by
  rw [vars_bound hother, List.count_cons_of_ne (Ne.symm h)]

theorem count_countingLoop (h : IsUnwritten o name) (source : ESTree) (depth : Nat)
    (ss : List ESTree) :
    (countingLoop source (loopIndex depth) ss).vars.count name =
      2 * source.vars.count name + (varsAll ss).count name := by
  have hindex : loopIndex depth ≠ name := by
    rintro rfl
    have hfalse := h.isLoopIndex
    rw [isLoopIndex_loopIndex] at hfalse
    cases hfalse
  rw [vars_countingLoop]
  simp only [List.count_append, List.count_cons_of_ne hindex, List.count_cons_of_ne h.ne_item.symm,
    List.count_nil]
  omega

theorem count_testOf {check : Check} {l : ESTree} {rs : List ESTree}
    (h : (varsAll (l :: rs)).count name = 0) :
    (testOf check l rs.head?).vars.count name = 0 := by
  rw [List.count_eq_zero] at h ⊢
  exact fun hmem => h (mem_vars_of_mem_testOf hmem)

/-- Values draw nothing, so in them nothing can occur for a draw. -/
theorem count_eq_zero_of_value {form : Form} {depth : Nat} {r r' : Registry}
    {es hs : List ESTree} {ws : List Warning} (h : Lowers o form depth r es hs ws r')
    (hplace : form.place = .value) (hws : ws = [])
    (hcount : (varsAll (hs ++ es)).count name + 3 * r.drawn.count name =
      3 * r'.drawn.count name) : (varsAll es).count name = 0 := by
  obtain ⟨rfl, rfl⟩ := eq_of_lowers_value h hplace hws
  rwa [List.nil_append, Nat.add_eq_right] at hcount

/-- Where no warning is given, a name that nothing writes occurs three times for each draw of it. -/
theorem count_of_lowers (hname : IsUnwritten o name) {form : Form} {depth : Nat}
    {r r' : Registry} {es hs : List ESTree} {ws : List Warning}
    (h : Lowers o form depth r es hs ws r') (hws : ws = []) (havoids : Avoids name form.nodes) :
    (varsAll (hs ++ es)).count name + 3 * r.drawn.count name = 3 * r'.drawn.count name := by
  have hrequire := List.count_eq_zero.2 hname.not_mem_require
  have hexports := List.count_eq_zero.2 hname.not_mem_exports
  induction h with
  | integer | float | string | noValues | emptyBlock => simp
  | useModule => simp [hrequire]
  | identifier =>
      obtain ⟨hrooted, hne, -⟩ := havoids.root rfl rfl
      simp [count_path hrooted hne]
  | create =>
      obtain ⟨hrooted, hne, -⟩ := havoids.root rfl rfl
      simp [count_bound hrooted hne, vars]
  | useModuleAs =>
      obtain ⟨hrooted, hne, -⟩ := havoids.root rfl rfl
      simp [count_bound hrooted hne, hrequire]
  | exportName =>
      obtain ⟨hrooted, hne, -⟩ := havoids.root rfl rfl
      simp [count_path hrooted hne, hexports]
  | array _ ih | arithmetic _ ih =>
      have hparts := (avoids_singleton.1 havoids).2
      simpa [vars] using ih hws hparts
  | get _ ih | set _ ih | call _ ih =>
      obtain ⟨hrooted, hne, hparts⟩ := havoids.root rfl rfl
      simpa [vars, count_path hrooted hne] using ih hws hparts
  | assignment _ ih =>
      rw [List.append_eq_nil_iff] at hws
      obtain ⟨hrooted, hne, hparts⟩ := havoids.root rfl rfl
      simpa [count_bound hrooted hne] using ih hws.2 hparts
  | function _ ih =>
      rw [List.append_eq_nil_iff] at hws
      obtain ⟨⟨hnames, -⟩, hparts⟩ := avoids_singleton.1 havoids
      rw [Node.names, ← List.count_eq_zero, List.count_cons] at hnames
      have hbody := ih hws.2 hparts
      simp only [List.nil_append, Registry.drawn_define] at hbody
      simp only [List.nil_append, varsAll_cons, vars, varsAll_map_identifier, varsAll_nil,
        varsAll_withResult, List.append_nil, List.count_append, List.count_cons, List.count_nil]
      omega
  | @iteratorArray _ _ _ depth _ _ _ _ _ _ ss _ _ other _ hfresh _ ihsource ihbody =>
      simp only [List.append_eq_nil_iff] at hws
      obtain ⟨⟨-, hws₁⟩, hws₂⟩ := hws
      obtain ⟨hsource, hbody⟩ := avoids_cons.1 (avoids_singleton.1 havoids).2
      have hfirst := ihsource hws₁ hsource
      have hsecond := ihbody hws₂ hbody
      have hloop := count_countingLoop hname (.identifier other) depth ss
      -- one more draw: one more occurrence in the declaration, and two in the loop
      rw [(Registry.draws_of_fresh? hfresh).drawn] at hsecond
      simp only [varsAll_append, varsAll_cons, varsAll_nil, vars_declare, vars, List.count_append,
        List.count_cons, List.count_nil, List.nil_append] at hfirst hsecond hloop ⊢
      omega
  | @iterator _ _ _ depth _ _ _ s _ ss _ _ hsource _ _ ihsource ihbody =>
      simp only [List.append_eq_nil_iff] at hws
      obtain ⟨⟨-, hws₁⟩, hws₂⟩ := hws
      have hparts := avoids_cons.1 (avoids_singleton.1 havoids).2
      -- the source stands in the loop twice, which does no harm as the name is not in it
      have hzero := count_eq_zero_of_value hsource rfl hws₁ (ihsource hws₁ hparts.1)
      have hbody := ihbody hws₂ hparts.2
      have hloop := count_countingLoop hname s depth ss
      obtain ⟨rfl, rfl⟩ := eq_of_lowers_value hsource rfl hws₁
      simp only [varsAll_cons, varsAll_nil, List.nil_append, List.append_nil] at hzero hbody ⊢
      omega
  | conditional hoperands _ ihoperands ihpass =>
      simp only [List.append_eq_nil_iff] at hws
      obtain ⟨⟨-, hws₁⟩, hws₂⟩ := hws
      have hparts := (avoids_singleton.1 havoids).2
      rw [Node.children, avoids_append, avoids_append] at hparts
      have hzero := count_eq_zero_of_value hoperands rfl hws₁ (ihoperands hws₁ hparts.1.1)
      have hpass := ihpass hws₂ hparts.1.2
      obtain ⟨rfl, rfl⟩ := eq_of_lowers_value hoperands rfl hws₁
      simpa [vars, varsOption, count_testOf hzero] using hpass
  | conditionalElse hoperands _ _ ihoperands ihpass ihfail =>
      simp only [List.append_eq_nil_iff] at hws
      obtain ⟨⟨⟨-, hws₁⟩, hws₂⟩, hws₃⟩ := hws
      have hparts := (avoids_singleton.1 havoids).2
      rw [Node.children, avoids_append, avoids_append] at hparts
      have hzero := count_eq_zero_of_value hoperands rfl hws₁ (ihoperands hws₁ hparts.1.1)
      have hpass := ihpass hws₂ hparts.1.2
      have hfail := ihfail hws₃ hparts.2
      obtain ⟨rfl, rfl⟩ := eq_of_lowers_value hoperands rfl hws₁
      simp only [List.nil_append, varsAll_cons, varsAll_nil, vars, varsOption, List.append_nil,
        List.count_append, count_testOf hzero] at hpass hfail ⊢
      omega
  | @result _ _ _ _ _ es _ _ hvalue ih =>
      rw [List.append_eq_nil_iff] at hws
      have hcount := ih hws.2 (avoids_singleton.1 havoids).2
      have hzero := count_eq_zero_of_value hvalue rfl hws.2 hcount
      obtain ⟨rfl, rfl⟩ := eq_of_lowers_value hvalue rfl hws.2
      cases es with
      | nil => simp [vars, varsOption]
      | cons e others =>
          rw [varsAll_cons, List.count_append, Nat.add_eq_zero_iff] at hzero
          simp [vars, varsOption, hzero.1]
  | values _ _ ihnode ihnodes | block _ _ ihnode ihnodes =>
      rw [List.append_eq_nil_iff] at hws
      obtain ⟨hnode, hnodes⟩ := avoids_cons.1 havoids
      have hfirst := ihnode hws.1 hnode
      have hothers := ihnodes hws.2 hnodes
      simp only [varsAll_append, varsAll_cons, varsAll_nil, List.count_append, List.count_nil,
        List.nil_append] at hfirst hothers ⊢
      omega

end Count

/-! ## Each draw stores an array for the loop after it -/

/-- An array is stored under the name, and the next statement loops over it. -/
def Stores (name : String) (statements : List ESTree) : Prop :=
  ∃ elements i body,
    [.declare name (.arrayExpression elements), countingLoop (.identifier name) i body] <:+:
      statements

/-- The same in the list of statements or in a block within it. -/
def StoresWithin (name : String) (statements : List ESTree) : Prop :=
  Stores name statements ∨ ∃ body, .blockStatement body ∈ walkAll statements ∧ Stores name body

section Stores

variable {name : String}

theorem mem_walkAll_of_mem {e node : ESTree} {statements : List ESTree} (he : e ∈ statements)
    (h : node ∈ walk e) : node ∈ walkAll statements := by
  rw [walkAll_eq_flatMap]
  exact List.mem_flatMap.2 ⟨e, he, h⟩

theorem StoresWithin.mono {statements others : List ESTree} (h : StoresWithin name statements)
    (hsub : statements <:+: others) : StoresWithin name others := by
  rcases h with ⟨elements, i, body, h⟩ | ⟨body, hbody, h⟩
  · exact .inl ⟨elements, i, body, h.trans hsub⟩
  · rw [walkAll_eq_flatMap] at hbody
    obtain ⟨e, he, hwalk⟩ := List.mem_flatMap.1 hbody
    exact .inr ⟨body, mem_walkAll_of_mem (hsub.subset he) hwalk, h⟩

/-- What is stored within a block is stored within the statement that the block is part of. -/
theorem StoresWithin.of_mem_parts {statements : List ESTree} {e : ESTree}
    (h : StoresWithin name statements) (hpart : .blockStatement statements ∈ e.parts) :
    StoresWithin name [e] := by
  have hsubset : ∀ node ∈ walk (.blockStatement statements), node ∈ walkAll [e] := by
    intro node hnode
    refine mem_walkAll_of_mem (List.mem_singleton.2 rfl) ?_
    rw [walk_eq e]
    exact List.mem_cons_of_mem _ (List.mem_flatMap.2 ⟨_, hpart, hnode⟩)
  rw [walk_eq, List.forall_mem_cons] at hsubset
  rcases h with h | ⟨body, hbody, h⟩
  · exact .inr ⟨statements, hsubset.1, h⟩
  · refine .inr ⟨body, hsubset.2 _ ?_, h⟩
    rwa [walkAll_eq_flatMap] at hbody

theorem mem_walk_resultOf {e : ESTree} {body : List ESTree}
    (h : .blockStatement body ∈ walk e) : .blockStatement body ∈ walk (resultOf e) := by
  unfold resultOf
  split
  · rw [walk_eq] at h ⊢
    simpa [parts] using h
  · split
    · rw [walk_eq]
      exact List.mem_cons_of_mem _ (by simpa [parts] using h)
    · exact h

/-- A loop gives no result, so it stays beside the declaration of its array. -/
theorem Stores.withResult {ss : List ESTree} (h : Stores name ss) (body : List Node) :
    Stores name (withResult body ss) := by
  obtain ⟨elements, i, inner, before, after, rfl⟩ := h
  rcases List.eq_nil_or_concat after with rfl | ⟨after, last, rfl⟩
  · have hloop := withResult_concat body (before ++ [.declare name (.arrayExpression elements)])
      (countingLoop (.identifier name) i inner)
    rw [show resultOf (countingLoop (.identifier name) i inner) = countingLoop _ i inner from rfl,
      or_self] at hloop
    refine ⟨elements, i, inner, before, [], ?_⟩
    simpa using hloop.symm
  · have hlast := withResult_concat body (before ++ [.declare name (.arrayExpression elements),
      countingLoop (.identifier name) i inner] ++ after) last
    rw [List.concat_eq_append, ← List.append_assoc]
    rcases hlast with hlast | hlast
    · rw [hlast]
      exact ⟨elements, i, inner, before, after ++ [last], (List.append_assoc ..).symm⟩
    · rw [hlast]
      exact ⟨elements, i, inner, before, after ++ [resultOf last], (List.append_assoc ..).symm⟩

theorem StoresWithin.withResult {ss : List ESTree} (h : StoresWithin name ss)
    (body : List Node) : StoresWithin name (withResult body ss) := by
  rcases h with h | ⟨inner, hinner, h⟩
  · exact .inl (h.withResult body)
  · refine .inr ⟨inner, ?_, h⟩
    rcases List.eq_nil_or_concat ss with rfl | ⟨before, last, rfl⟩
    · simp [walkAll] at hinner
    · rw [List.concat_eq_append] at hinner ⊢
      rcases withResult_concat body before last with heq | heq
      · rwa [heq]
      · rw [heq]
        simp only [walkAll_eq_flatMap, List.flatMap_append, List.flatMap_singleton,
          List.mem_append] at hinner ⊢
        exact hinner.imp_right mem_walk_resultOf

theorem storesWithin_countingLoop {source : ESTree} {i : String} {ss : List ESTree}
    (h : StoresWithin name ss) : StoresWithin name [countingLoop source i ss] := by
  have hbody : StoresWithin name (.declare itemName (.index source (.identifier i)) :: ss) :=
    h.mono (List.suffix_cons _ ss).isInfix
  exact hbody.of_mem_parts (by simp [countingLoop, parts])

/-- Where no warning is given, every draw stores an array for a loop. -/
theorem storesWithin_of_lowers {o : Options} {form : Form} {depth : Nat} {r r' : Registry}
    {es hs : List ESTree} {ws : List Warning} (h : Lowers o form depth r es hs ws r')
    (hws : ws = []) (hdrawn : name ∈ r'.drawn) :
    name ∈ r.drawn ∨ StoresWithin name (hs ++ es) := by
  induction h with
  | identifier | integer | float | string | useModule | exportName | noValues | emptyBlock =>
      exact .inl hdrawn
  | create | useModuleAs =>
      rw [Registry.drawn_bind] at hdrawn
      exact .inl hdrawn
  | array hparts | get hparts | set hparts | call hparts | arithmetic hparts =>
      obtain ⟨-, rfl⟩ := eq_of_lowers_value hparts rfl hws
      exact .inl hdrawn
  | assignment hvalue =>
      rw [List.append_eq_nil_iff] at hws
      obtain ⟨-, rfl⟩ := eq_of_lowers_value hvalue rfl hws.2
      rw [Registry.drawn_bind] at hdrawn
      exact .inl hdrawn
  | result hvalue =>
      rw [List.append_eq_nil_iff] at hws
      obtain ⟨-, rfl⟩ := eq_of_lowers_value hvalue rfl hws.2
      exact .inl hdrawn
  | @function _ _ _ body _ _ _ ss _ _ ih =>
      rw [List.append_eq_nil_iff] at hws
      rcases ih hws.2 hdrawn with h | h
      · rw [Registry.drawn_define] at h
        exact .inl h
      · exact .inr ((h.withResult body).of_mem_parts (by simp [parts]))
  | @iteratorArray _ _ _ depth _ _ _ _ elements _ ss _ _ other hsource hfresh _ _ ihbody =>
      simp only [List.append_eq_nil_iff] at hws
      obtain ⟨⟨-, hws₁⟩, hws₂⟩ := hws
      obtain ⟨rfl, rfl⟩ := eq_of_lowers_value hsource rfl hws₁
      rcases ihbody hws₂ hdrawn with h | h
      · rw [(Registry.draws_of_fresh? hfresh).drawn, List.mem_append, List.mem_singleton] at h
        rcases h with h | rfl
        · exact .inl h
        · exact .inr (.inl ⟨elements, loopIndex depth, ss, List.infix_rfl⟩)
      · exact .inr ((storesWithin_countingLoop h).mono (List.suffix_append _ _).isInfix)
  | iterator hsource _ _ _ ihbody =>
      simp only [List.append_eq_nil_iff] at hws
      obtain ⟨⟨-, hws₁⟩, hws₂⟩ := hws
      obtain ⟨rfl, rfl⟩ := eq_of_lowers_value hsource rfl hws₁
      exact (ihbody hws₂ hdrawn).imp_right storesWithin_countingLoop
  | conditional hoperands _ _ ihpass =>
      simp only [List.append_eq_nil_iff] at hws
      obtain ⟨⟨-, hws₁⟩, hws₂⟩ := hws
      obtain ⟨rfl, rfl⟩ := eq_of_lowers_value hoperands rfl hws₁
      refine (ihpass hws₂ hdrawn).imp_right fun h => ?_
      exact h.of_mem_parts (by simp [parts])
  | conditionalElse hoperands _ _ _ ihpass ihfail =>
      simp only [List.append_eq_nil_iff] at hws
      obtain ⟨⟨⟨-, hws₁⟩, hws₂⟩, hws₃⟩ := hws
      obtain ⟨rfl, rfl⟩ := eq_of_lowers_value hoperands rfl hws₁
      rcases ihfail hws₃ hdrawn with hdrawn | h
      · refine (ihpass hws₂ hdrawn).imp_right fun h => ?_
        exact h.of_mem_parts (by simp [parts])
      · exact .inr (h.of_mem_parts (by simp [parts]))
  | values hnode hnodes =>
      rw [List.append_eq_nil_iff] at hws
      obtain ⟨-, rfl⟩ := eq_of_lowers_value hnodes rfl hws.2
      obtain ⟨-, rfl⟩ := eq_of_lowers_value hnode rfl hws.1
      exact .inl hdrawn
  | @block _ _ _ _ _ _ e es hs _ _ _ _ ihnode ihnodes =>
      rw [List.append_eq_nil_iff] at hws
      rcases ihnodes hws.2 hdrawn with hdrawn | h
      · refine (ihnode hws.1 hdrawn).imp_right fun h => h.mono ⟨[], es, ?_⟩
        simp
      · exact .inr (h.mono ⟨hs ++ [e], [], by simp⟩)

end Stores

/-! ## Drawn names are not written -/

section Reserved

variable {o : Options} {program : List Node} {name : String}

theorem isUnwritten_of_not_mem_reservedNames (hrequire : Name.IsRooted o.requireCallee)
    (hexports : Name.IsRooted o.exportsTarget) (hindex : isLoopIndex name = false)
    (h : name ∉ reservedNames o program) : IsUnwritten o name := by
  simp only [reservedNames, List.mem_append, List.mem_cons, List.not_mem_nil, or_false,
    not_or] at h
  obtain ⟨-, hitem, hcallee, htarget⟩ := h
  constructor
  · exact hindex
  · exact hitem
  · rwa [vars_path hrequire, List.mem_singleton]
  · rwa [vars_path hexports, List.mem_singleton]

theorem avoids_of_not_mem_reservedNames (hrooted : Node.WritesOnly Name.IsRooted program)
    (h : name ∉ reservedNames o program) : Avoids name program := by
  intro node hnode
  refine ⟨fun hname => h ?_, hrooted node hnode⟩
  exact List.mem_append_left _ (List.mem_flatMap.2 ⟨node, hnode, hname⟩)

end Reserved

end Lowering

/-- Let a program come from a source, and let the options name nothing that begins with a dot.  A
counter always finds its temporaries.  Whatever the strategy, the key and the patience of the draws,
in every output without a warning the temporaries differ, and each of them stands in three variable
positions: in the declaration of an array, and in the test and the first statement of the loop right
after it. -/
theorem temporaries_free_of_capture {source : String} {program : List Node} {o : Options}
    (supply : Supply) (hparse : parseSource source = .ok program)
    (hrequire : Name.IsRooted o.requireCallee) (hexports : Name.IsRooted o.exportsTarget) :
    (∀ stem, o.temporaries = .counter stem →
        ∃ lowered, Lowering.lowerProgram o supply program = some lowered) ∧
      ∀ lowered, Lowering.lowerProgram o supply program = some lowered →
        lowered.warnings = [] →
          lowered.temporaries.Nodup ∧
            ∀ name ∈ lowered.temporaries,
              (varsAll lowered.body).count name = 3 ∧
                Lowering.StoresWithin name lowered.body := by
  constructor
  · intro stem hstrategy
    exact Lowering.exists_lowerProgram_of_counter hstrategy supply program
  · intro lowered hlower hws
    obtain ⟨r, hlowers, -, htemporaries⟩ := Lowering.lowers_of_lowerProgram hlower
    have hempty := Lowering.drawn_initialContext o supply program
    have hsound : r.Sound :=
      Lowering.sound_of_lowers hlowers (Registry.sound_of_drawn_eq_nil hempty)
    rw [htemporaries]
    refine ⟨hsound.nodup, fun name hname => ⟨?_, ?_⟩⟩
    · have hfree : name ∉ Lowering.reservedNames o program := by
        intro hmem
        apply hsound.not_mem_reserved name hname
        rw [Lowering.reserved_of_lowers hlowers]
        exact Lowering.mem_reserved_initialContext hmem
      have hunwritten := Lowering.isUnwritten_of_not_mem_reservedNames hrequire hexports
        (hsound.isLoopIndex name hname) hfree
      have havoids := Lowering.avoids_of_not_mem_reservedNames
        (Node.writesOnly_isRooted hparse) hfree
      have hcount := Lowering.count_of_lowers hunwritten hlowers hws havoids
      rw [hempty, List.nil_append, List.count_nil, hsound.nodup.count, if_pos hname] at hcount
      exact hcount
    · rcases Lowering.storesWithin_of_lowers hlowers hws hname with h | h
      · rw [hempty] at h
        cases h
      · exact h

/-- A program that writes the first candidate of the counter gets the second one. -/
theorem temporaries_free_of_capture_next_candidate :
    parseSource "@[t0]\x7b(f item)\x7d" =
        .ok [.iterator (.array [.identifier "t0"]) [.call "f" [.identifier "item"]]] ∧
      ∃ lowered,
        Lowering.lowerProgram ⟨"require", "module.exports", .counter ⟨"t", by decide⟩⟩ (.ofSeed 0)
            [.iterator (.array [.identifier "t0"]) [.call "f" [.identifier "item"]]] =
          some lowered ∧
        lowered.warnings = [] ∧ lowered.temporaries = ["t1"] ∧
          (varsAll lowered.body).count "t1" = 3 ∧
            Lowering.StoresWithin "t1" lowered.body := by
  have htokens : tokenize "@[t0]\x7b(f item)\x7d" = .ok
      [⟨.mark .loop, ⟨0, 1⟩⟩, ⟨.mark .openBracket, ⟨1, 2⟩⟩, ⟨.identifier "t0", ⟨2, 4⟩⟩,
        ⟨.mark .closeBracket, ⟨4, 5⟩⟩, ⟨.mark .openBrace, ⟨5, 6⟩⟩, ⟨.mark .openParen, ⟨6, 7⟩⟩,
        ⟨.identifier "f", ⟨7, 8⟩⟩, ⟨.identifier "item", ⟨9, 13⟩⟩, ⟨.mark .closeParen, ⟨13, 14⟩⟩,
        ⟨.mark .closeBrace, ⟨14, 15⟩⟩] :=
    eq_ok_of_toOption_eq_some (by decide +kernel)
  have hparse : parseSource "@[t0]\x7b(f item)\x7d" =
      .ok [.iterator (.array [.identifier "t0"]) [.call "f" [.identifier "item"]]] := by
    refine parseSource_eq_ok_iff.2 ⟨_, htokens, parse_eq_ok_iff.2 ?_⟩
    exact .item (.iterator rfl (.array rfl (.more (by simp) (.identifier rfl) (.done rfl)))
      (.braces rfl (.more (by simp) (.call rfl rfl (.more (by simp) (.identifier rfl) (.done rfl))
        (.inr (by simp))) (.done rfl)))) .nil
  have hlower : (Lowering.lowerProgram ⟨"require", "module.exports", .counter ⟨"t", by decide⟩⟩
      (.ofSeed 0) [.iterator (.array [.identifier "t0"]) [.call "f" [.identifier "item"]]]).map
        (fun lowered => (lowered.warnings, lowered.temporaries)) = some ([], ["t1"]) := by
    decide +kernel
  obtain ⟨lowered, hlowered, heq⟩ := Option.map_eq_some_iff.1 hlower
  obtain ⟨hws, htemporaries⟩ := Prod.mk.inj heq
  have hall :=
    (temporaries_free_of_capture (.ofSeed 0) hparse (by decide) (by decide)).2 lowered hlowered hws
  exact ⟨hparse, lowered, hlowered, hws, htemporaries, hall.2 "t1" (by simp [htemporaries])⟩

end LijsCompiler
