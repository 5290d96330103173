import LijsCompiler.Proofs.Lowering.Parallel
import LijsCompiler.Proofs.Lowering.Temporaries

/-!
# What a loop runs over

A counting loop evaluates its sequence again on every round.  Over an array that is written out it
runs over a temporary, so nothing in the loop can disturb the sequence.  Over any other value it
runs over that value as it is written: the calls and assignments in it are made on every round, and
it may name the element of the loop (`loopSource_of_compile`).
-/

namespace LijsCompiler

inductive Effect where
  | call
  | assignment
deriving DecidableEq, Repr

namespace ESTree

def effectsHere : ESTree → List Effect
  | callExpression .. => [.call]
  | assignmentExpression .. => [.assignment]
  | _ => []

def effects (e : ESTree) : List Effect := e.walk.flatMap effectsHere

def isLoop : ESTree → Bool
  | forStatement .. => true
  | _ => false

def loops (e : ESTree) : List ESTree := e.walk.filter isLoop

theorem effects_eq (e : ESTree) : e.effects = e.effectsHere ++ e.parts.flatMap effects := by
  unfold effects
  rw [walk_eq, List.flatMap_cons, List.flatMap_assoc]

theorem loops_eq (e : ESTree) :
    e.loops = (if e.isLoop then [e] else []) ++ e.parts.flatMap loops := by
  unfold loops
  rw [walk_eq, List.filter_cons, List.filter_flatMap]
  split <;> rfl

@[simp] theorem loops_identifier (name : String) : (identifier name).loops = [] := rfl

@[simp] theorem loops_number (x : Binary64) (raw : String) : (number x raw).loops = [] := rfl

@[simp] theorem loops_string (text : String) : (ESTree.string text).loops = [] := rfl

@[simp] theorem loops_declare (name : String) (init : ESTree) :
    (declare name init).loops = init.loops := by
  rw [declare, loops_eq]
  simp [isLoop, parts, declaratorParts]

@[simp] theorem effects_member (object : ESTree) (property : String) :
    (member object property).effects = object.effects := by
  rw [member, effects_eq]
  simp [effectsHere, parts, effects, walk]

@[simp] theorem loops_member (object : ESTree) (property : String) :
    (member object property).loops = object.loops := by
  rw [member, loops_eq]
  simp [isLoop, parts]

@[simp] theorem effects_index (object property : ESTree) :
    (index object property).effects = object.effects ++ property.effects := by
  rw [index, effects_eq]
  simp [effectsHere, parts]

@[simp] theorem loops_index (object property : ESTree) :
    (index object property).loops = object.loops ++ property.loops := by
  rw [index, loops_eq]
  simp [isLoop, parts]

@[simp] theorem effects_path (name : String) : (path name).effects = [] := by
  apply path_induction (P := fun e => e.effects = [])
  · exact fun _ => rfl
  · intro object property hobject
    rw [effects_member, hobject]

@[simp] theorem loops_path (name : String) : (path name).loops = [] := by
  apply path_induction (P := fun e => e.loops = [])
  · exact fun _ => rfl
  · intro object property hobject
    rw [loops_member, hobject]

end ESTree

open ESTree

namespace Node

def effectsHere : Node → List Effect
  | call .. | useModule .. => [.call]
  | set .. | exportName _ => [.assignment]
  | _ => []

def effects (node : Node) : List Effect := node.walk.flatMap effectsHere

def varsHere (o : Options) : Node → List String
  | identifier name | get name _ | set name _ _ | call name _ => [Name.root name]
  | useModule .. => (path o.requireCallee).vars
  | exportName name => (path o.exportsTarget).vars ++ [Name.root name]
  | _ => []

def vars (o : Options) (node : Node) : List String := node.walk.flatMap (varsHere o)

theorem effects_eq (node : Node) :
    node.effects = node.effectsHere ++ node.children.flatMap effects := by
  unfold effects
  rw [walk_eq, List.flatMap_cons, List.flatMap_assoc]

theorem vars_eq (o : Options) (node : Node) :
    node.vars o = node.varsHere o ++ node.children.flatMap (vars o) := by
  unfold vars
  rw [walk_eq, List.flatMap_cons, List.flatMap_assoc]

end Node

namespace Lowering

/-! ## Values keep their effects and variables -/

/-- The values have the effects and the variables of the nodes, and no loops. -/
structure Mirrors (o : Options) (nodes : List Node) (es : List ESTree) : Prop where
  effects : es.flatMap ESTree.effects = nodes.flatMap Node.effects
  vars : varsAll es = nodes.flatMap (Node.vars o)
  loops : es.flatMap ESTree.loops = []

theorem mirrors_singleton {o : Options} {node : Node} {e : ESTree}
    (heffects : e.effectsHere ++ e.parts.flatMap ESTree.effects =
      node.effectsHere ++ node.children.flatMap Node.effects)
    (hvars : e.vars = node.varsHere o ++ node.children.flatMap (Node.vars o))
    (hloops : e.isLoop = false ∧ e.parts.flatMap ESTree.loops = []) : Mirrors o [node] [e] := by
  constructor
  · rw [List.flatMap_singleton, List.flatMap_singleton, ESTree.effects_eq, Node.effects_eq,
      heffects]
  · rw [varsAll_cons, varsAll_nil, List.append_nil, List.flatMap_singleton, Node.vars_eq,
      hvars]
  · rw [List.flatMap_singleton, loops_eq, hloops.1, hloops.2]
    rfl

section Values

variable {o : Options} {form : Form} {depth : Nat} {r r' : Registry} {es hs : List ESTree}
  {ws : List Warning}

/-- In a value position nothing is added or lost, unless there is a warning. -/
theorem mirrors_of_lowers (h : Lowers o form depth r es hs ws r') (hplace : form.place = .value)
    (hws : ws = []) (hrooted : Node.WritesOnly Name.IsRooted form.nodes) :
    Mirrors o form.nodes es := by
  induction h with
  | identifier =>
      have hname := (Node.writesOnly_singleton.1 hrooted).1 _ (List.mem_singleton.2 rfl)
      constructor
      · simp [Form.nodes, Node.effects_eq, Node.effectsHere, Node.children]
      · simp [Form.nodes, vars_path hname, Node.vars_eq, Node.varsHere, Node.children]
      · simp
  | integer | float | string =>
      apply mirrors_singleton
      · rfl
      · rfl
      · exact ⟨rfl, rfl⟩
  | array _ ih | arithmetic _ ih =>
      obtain rfl : _ = Place.value := hplace
      obtain ⟨heffects, hvars, hloops⟩ := ih rfl hws (Node.writesOnly_singleton.1 hrooted).2
      apply mirrors_singleton
      · simpa [ESTree.effectsHere, parts, Place.embed, Node.effectsHere, Node.children, Form.nodes]
          using heffects
      · simpa [vars, Place.embed, Node.varsHere, Node.children, Form.nodes] using hvars
      · simpa [isLoop, parts, Place.embed] using hloops
  | get _ ih =>
      obtain rfl : _ = Place.value := hplace
      have hname := (Node.writesOnly_singleton.1 hrooted).1 _ (List.mem_singleton.2 rfl)
      obtain ⟨heffects, hvars, hloops⟩ := ih rfl hws (Node.writesOnly_singleton.1 hrooted).2
      constructor
      · simpa [Place.embed, Node.effects_eq (.get _ _), Node.effectsHere, Node.children, Form.nodes]
          using heffects
      · simpa [vars_path hname, Place.embed, Node.vars_eq _ (.get _ _), Node.varsHere,
          Node.children, Form.nodes] using hvars
      · simpa [Place.embed] using hloops
  | set _ ih | call _ ih =>
      obtain rfl : _ = Place.value := hplace
      have hname := (Node.writesOnly_singleton.1 hrooted).1 _ (List.mem_singleton.2 rfl)
      obtain ⟨heffects, hvars, hloops⟩ := ih rfl hws (Node.writesOnly_singleton.1 hrooted).2
      apply mirrors_singleton
      · simpa [ESTree.effectsHere, parts, Place.embed, Node.effectsHere, Node.children, Form.nodes]
          using heffects
      · simpa [vars, vars_path hname, Place.embed, Node.varsHere, Node.children, Form.nodes]
          using hvars
      · simpa [isLoop, parts, Place.embed] using hloops
  | useModule =>
      obtain rfl : _ = Place.value := hplace
      apply mirrors_singleton
      · simp [ESTree.effectsHere, parts, Place.embed, require, Node.effectsHere, Node.children]
        rfl
      · simp [Node.varsHere, Node.children]
      · simp [isLoop, parts, Place.embed, require]
  | exportName =>
      obtain rfl : _ = Place.value := hplace
      have hname := (Node.writesOnly_singleton.1 hrooted).1 _ (List.mem_singleton.2 rfl)
      apply mirrors_singleton
      · simp [ESTree.effectsHere, parts, Place.embed, exported, Node.effectsHere, Node.children]
      · simp [vars_path hname, Node.varsHere, Node.children]
      · simp [isLoop, parts, Place.embed, exported]
  | assignment | create | useModuleAs | function | iteratorArray | iterator | conditional
  | conditionalElse | result =>
      -- each of these warns here
      obtain rfl : _ = Place.value := hplace
      simp [Place.warnings] at hws
  | noValues => exact ⟨rfl, rfl, rfl⟩
  | values _ _ ihnode ihnodes =>
      rw [List.append_eq_nil_iff] at hws
      obtain ⟨hfirst, hothers⟩ := Node.writesOnly_cons.1 hrooted
      have hnode := ihnode rfl hws.1 hfirst
      have hnodes := ihnodes rfl hws.2 hothers
      constructor
      · rw [← List.singleton_append, List.flatMap_append, hnode.effects, hnodes.effects]
        simp [Form.nodes]
      · rw [← List.singleton_append, varsAll_append, hnode.vars, hnodes.vars]
        simp [Form.nodes]
      · rw [← List.singleton_append, List.flatMap_append, hnode.loops, hnodes.loops]
        rfl
  | emptyBlock | block => cases hplace

theorem loops_of_values {nodes : List Node} (h : Lowers o (.values nodes) depth r es hs ws r')
    (hws : ws = []) (hrooted : Node.WritesOnly Name.IsRooted nodes) :
    hs = [] ∧ es.flatMap ESTree.loops = [] :=
  ⟨(eq_of_lowers_value h rfl hws).1, (mirrors_of_lowers h rfl hws hrooted).loops⟩

end Values

/-! ## Where the loops of the output come from -/

@[simp] theorem loops_embed (place : Place) (e : ESTree) : (place.embed e).loops = e.loops := by
  cases place with
  | statement =>
      rw [Place.embed, loops_eq]
      simp [isLoop, parts]
  | value => rfl

@[simp] theorem loops_bound (name : String) (init : ESTree) :
    (bound name init).loops = init.loops := by
  unfold bound
  split
  · rw [loops_eq, parts, List.flatMap_singleton, loops_eq]
    simp [isLoop, parts]
  · exact loops_declare name init

@[simp] theorem loops_require (o : Options) (text : String) : (require o text).loops = [] := by
  rw [require, loops_eq]
  simp [isLoop, parts]

@[simp] theorem loops_exported (o : Options) (name : String) : (exported o name).loops = [] := by
  rw [exported, loops_eq]
  simp [isLoop, parts]

theorem loops_testOf {check : Check} {l : ESTree} {rs : List ESTree}
    (h : (l :: rs).flatMap ESTree.loops = []) : (testOf check l rs.head?).loops = [] := by
  rw [List.flatMap_cons, List.append_eq_nil_iff] at h
  cases rs with
  | nil => cases check <;> exact h.1
  | cons x others =>
      obtain ⟨hl, hx⟩ := h
      rw [List.flatMap_cons, List.append_eq_nil_iff] at hx
      cases check with
      | present => exact hl
      | equal | similar =>
          rw [List.head?_cons, testOf, loops_eq]
          simp [isLoop, parts, hl, hx.1]
      | contains =>
          rw [List.head?_cons, testOf, loops_eq, parts, List.flatMap_singleton, loops_eq]
          simp [isLoop, parts, hl, hx.1]

@[simp] theorem loops_resultOf (e : ESTree) : (resultOf e).loops = e.loops := by
  unfold resultOf
  split
  · rw [loops_eq, loops_eq (expressionStatement _)]
    simp [isLoop, parts]
  · split
    · rw [loops_eq]
      simp [isLoop, parts]
    · rfl

@[simp] theorem flatMap_loops_withResult (body : List Node) (ss : List ESTree) :
    (withResult body ss).flatMap ESTree.loops = ss.flatMap ESTree.loops := by
  rcases List.eq_nil_or_concat ss with rfl | ⟨before, last, rfl⟩
  · rw [withResult_nil]
  · rw [List.concat_eq_append]
    rcases withResult_concat body before last with h | h
    · rw [h]
    · rw [h, List.flatMap_append, List.flatMap_append, List.flatMap_singleton, loops_resultOf,
        List.flatMap_singleton]

theorem loops_countingLoop {s : ESTree} (hs : s.loops = []) (i : String) (ss : List ESTree) :
    (countingLoop s i ss).loops = countingLoop s i ss :: ss.flatMap ESTree.loops := by
  have htest : (binaryExpression .lessThan (identifier i) (member s "length")).loops = [] := by
    rw [loops_eq]
    simp [isLoop, parts, hs]
  have hupdate : (updateExpression false (identifier i)).loops = [] := rfl
  have hbody : (blockStatement (declare itemName (index s (identifier i)) :: ss)).loops =
      ss.flatMap ESTree.loops := by
    rw [loops_eq]
    simp [isLoop, parts, hs]
  rw [countingLoop, loops_eq]
  simp [isLoop, parts, htest, hupdate, hbody]

/-- What a loop over a node runs over: a temporary if the node is an array, else the value of the
node as it is written. -/
def RunsOver (o : Options) (temporaries : List String) (source : Node) (s : ESTree) : Prop :=
  if source.kind = .array then ∃ name ∈ temporaries, s = .identifier name
  else s.effects = source.effects ∧ s.vars = source.vars o

def ComesFrom (o : Options) (temporaries : List String) (program : List Node) (loop : ESTree) :
    Prop :=
  ∃ source body depth s ss, .iterator source body ∈ Node.walkAll program ∧
    loop = countingLoop s (loopIndex depth) ss ∧ RunsOver o temporaries source s

theorem runsOver_temporary {o : Options} {temporaries : List String} {source : Node} {depth : Nat}
    {r r' : Registry} {elements hs : List ESTree} {ws : List Warning} {name : String}
    (h : Lowers o (.values [source]) depth r [.arrayExpression elements] hs ws r')
    (hname : name ∈ temporaries) : RunsOver o temporaries source (.identifier name) := by
  obtain ⟨nodes, rfl⟩ := (exists_eq_arrayExpression_iff h).1 ⟨_, rfl⟩
  exact ⟨name, hname, rfl⟩

theorem runsOver_value {o : Options} {temporaries : List String} {source : Node} {depth : Nat}
    {r r' : Registry} {s : ESTree} {hs : List ESTree} {ws : List Warning}
    (h : Lowers o (.values [source]) depth r [s] hs ws r') (hws : ws = [])
    (hrooted : Node.WritesOnly Name.IsRooted [source])
    (harray : ∀ elements, s ≠ .arrayExpression elements) : RunsOver o temporaries source s := by
  have hkind : source.kind ≠ .array := by
    intro hkind
    have hnode : ∃ elements, source = .array elements := by
      cases source <;> simp_all [Node.kind]
    obtain ⟨elements, heq⟩ := (exists_eq_arrayExpression_iff h).2 hnode
    exact harray elements heq
  have hmirrors := mirrors_of_lowers h rfl hws hrooted
  rw [RunsOver, if_neg hkind]
  constructor
  · simpa [Form.nodes] using hmirrors.effects
  · simpa [Form.nodes] using hmirrors.vars

/-- Without a warning, every loop that is put out stands for a loop that was lowered. -/
theorem comesFrom_of_lowers {o : Options} {form : Form} {depth : Nat} {r r' : Registry}
    {es hs : List ESTree} {ws : List Warning} {temporaries : List String} {program : List Node}
    (h : Lowers o form depth r es hs ws r') (hws : ws = [])
    (hrooted : Node.WritesOnly Name.IsRooted form.nodes)
    (hdrawn : ∀ name ∈ r'.drawn, name ∈ temporaries)
    (hnodes : ∀ node ∈ Node.walkAll form.nodes, node ∈ Node.walkAll program) :
    ∀ loop ∈ (hs ++ es).flatMap ESTree.loops, ComesFrom o temporaries program loop := by
  induction h with
  | identifier | integer | float | string | useModule | exportName | noValues | emptyBlock
  | useModuleAs => simp [numberLiteral]
  | create => simp [loops_eq (objectExpression []), isLoop, parts]
  | array hvalue =>
      obtain ⟨rfl, hloops⟩ := loops_of_values hvalue hws (Node.writesOnly_singleton.1 hrooted).2
      simp [loops_eq (arrayExpression _), isLoop, parts, hloops]
  | arithmetic hvalue =>
      obtain ⟨rfl, hloops⟩ := loops_of_values hvalue hws (Node.writesOnly_singleton.1 hrooted).2
      simp_all [loops_eq (binaryExpression _ _ _), isLoop, parts]
  | get hvalue =>
      obtain ⟨rfl, hloops⟩ := loops_of_values hvalue hws (Node.writesOnly_singleton.1 hrooted).2
      simp_all
  | set hvalue =>
      obtain ⟨rfl, hloops⟩ := loops_of_values hvalue hws (Node.writesOnly_singleton.1 hrooted).2
      simp_all [loops_eq (assignmentExpression _ _), isLoop, parts]
  | call hvalue =>
      obtain ⟨rfl, hloops⟩ := loops_of_values hvalue hws (Node.writesOnly_singleton.1 hrooted).2
      simp [loops_eq (callExpression _ _), isLoop, parts, hloops]
  | assignment hvalue =>
      rw [List.append_eq_nil_iff] at hws
      obtain ⟨rfl, hloops⟩ := loops_of_values hvalue hws.2 (Node.writesOnly_singleton.1 hrooted).2
      simp_all
  | @result _ _ _ _ _ es _ _ hvalue =>
      rw [List.append_eq_nil_iff] at hws
      obtain ⟨rfl, hloops⟩ := loops_of_values hvalue hws.2 (Node.writesOnly_singleton.1 hrooted).2
      cases es <;> simp_all [loops_eq (returnStatement _), isLoop, parts]
  | function _ ih =>
      rw [List.append_eq_nil_iff] at hws
      obtain ⟨-, hparts⟩ := Node.writesOnly_singleton.1 hrooted
      obtain ⟨-, hbelow⟩ := Node.forall_mem_walkAll_singleton.1 hnodes
      have hbody := ih hws.2 hparts hdrawn hbelow
      simpa [loops_eq (functionDeclaration _ _ _ _), loops_eq (blockStatement _), isLoop, parts,
        List.flatMap_map] using hbody
  | @iteratorArray _ source body depth _ _ _ _ _ _ ss _ _ name hsource hfresh hbody _ ihbody =>
      simp only [List.append_eq_nil_iff] at hws
      obtain ⟨⟨-, hws₁⟩, hws₂⟩ := hws
      obtain ⟨hfirst, hothers⟩ := Node.writesOnly_cons.1 (Node.writesOnly_singleton.1 hrooted).2
      obtain ⟨hhere, hbelow⟩ := Node.forall_mem_walkAll_singleton.1 hnodes
      obtain ⟨rfl, hloops⟩ := loops_of_values hsource hws₁ hfirst
      have hname : name ∈ temporaries := by
        apply hdrawn name ((drawn_prefix_of_lowers hbody).subset _)
        simp [(Registry.draws_of_fresh? hfresh).drawn]
      rw [List.nil_append, List.flatMap_append, List.flatMap_singleton, loops_declare,
        ← List.flatMap_singleton ESTree.loops, hloops, List.flatMap_singleton,
        loops_countingLoop rfl, List.nil_append, List.forall_mem_cons]
      refine ⟨⟨source, body, depth, _, ss, hhere, rfl, runsOver_temporary hsource hname⟩, ?_⟩
      exact ihbody hws₂ hothers hdrawn (Node.forall_mem_walkAll_cons.1 hbelow).2
  | @iterator _ source body depth _ _ _ s _ ss _ _ hsource harray _ _ ihbody =>
      simp only [List.append_eq_nil_iff] at hws
      obtain ⟨⟨-, hws₁⟩, hws₂⟩ := hws
      obtain ⟨hfirst, hothers⟩ := Node.writesOnly_cons.1 (Node.writesOnly_singleton.1 hrooted).2
      obtain ⟨hhere, hbelow⟩ := Node.forall_mem_walkAll_singleton.1 hnodes
      obtain ⟨rfl, hloops⟩ := loops_of_values hsource hws₁ hfirst
      rw [List.flatMap_singleton] at hloops
      have hruns : RunsOver o temporaries source s :=
        runsOver_value hsource hws₁ hfirst harray
      rw [List.nil_append, List.flatMap_singleton, loops_countingLoop hloops, List.forall_mem_cons]
      refine ⟨⟨source, body, depth, s, ss, hhere, rfl, hruns⟩, ?_⟩
      exact ihbody hws₂ hothers hdrawn (Node.forall_mem_walkAll_cons.1 hbelow).2
  | conditional hoperands _ _ ihpass =>
      simp only [List.append_eq_nil_iff] at hws
      obtain ⟨⟨-, hws₁⟩, hws₂⟩ := hws
      obtain ⟨-, hparts⟩ := Node.writesOnly_singleton.1 hrooted
      obtain ⟨-, hbelow⟩ := Node.forall_mem_walkAll_singleton.1 hnodes
      simp only [Node.children, Option.getD_none, List.append_nil, Node.writesOnly_append,
        Node.forall_mem_walkAll_append] at hparts hbelow
      obtain ⟨rfl, hloops⟩ := loops_of_values hoperands hws₁ hparts.1
      have hpass := ihpass hws₂ hparts.2 hdrawn hbelow.2
      simpa [loops_eq (ifStatement _ _ _), loops_eq (blockStatement _), isLoop, parts,
        loops_testOf hloops] using hpass
  | conditionalElse hoperands _ hfail _ ihpass ihfail =>
      simp only [List.append_eq_nil_iff] at hws
      obtain ⟨⟨⟨-, hws₁⟩, hws₂⟩, hws₃⟩ := hws
      obtain ⟨-, hparts⟩ := Node.writesOnly_singleton.1 hrooted
      obtain ⟨-, hbelow⟩ := Node.forall_mem_walkAll_singleton.1 hnodes
      simp only [Node.children, Option.getD_some, Node.writesOnly_append,
        Node.forall_mem_walkAll_append] at hparts hbelow
      obtain ⟨rfl, hloops⟩ := loops_of_values hoperands hws₁ hparts.1.1
      have hdrawn' := fun name hname => hdrawn name ((drawn_prefix_of_lowers hfail).subset hname)
      have hpass := ihpass hws₂ hparts.1.2 hdrawn' hbelow.1.2
      have hfail := ihfail hws₃ hparts.2 hdrawn hbelow.2
      rw [List.nil_append] at hpass hfail
      rw [List.nil_append, List.flatMap_singleton, loops_eq]
      simpa [loops_eq (blockStatement _), isLoop, parts, loops_testOf hloops, or_imp,
        forall_and] using And.intro hpass hfail
  | values hnode hrest =>
      obtain ⟨hhoisted, hloops⟩ := loops_of_values (.values hnode hrest) hws hrooted
      rw [hhoisted, List.nil_append, hloops]
      simp
  | block _ hrest ihnode ihnodes =>
      rw [List.append_eq_nil_iff] at hws
      obtain ⟨hfirst, hothers⟩ := Node.writesOnly_cons.1 hrooted
      obtain ⟨hhere, hbelow⟩ := Node.forall_mem_walkAll_cons.1 hnodes
      have hdrawn' := fun name hname => hdrawn name ((drawn_prefix_of_lowers hrest).subset hname)
      have hnode := ihnode hws.1 hfirst hdrawn' hhere
      have hnodes := ihnodes hws.2 hothers hdrawn hbelow
      simp only [List.nil_append, List.flatMap_append, List.flatMap_cons, List.flatMap_nil,
        List.append_nil, List.forall_mem_append] at hnode hnodes ⊢
      exact ⟨hnode.1, hnode.2, hnodes⟩

/-! ## What disturbs a loop -/

/-- To evaluate the sequence of a loop again changes nothing, and gives the same in every round as
far as the element and the index `i` of the loop are concerned. -/
structure Undisturbed (i : String) (s : ESTree) : Prop where
  effects : s.effects = []
  item : itemName ∉ s.vars
  index : i ∉ s.vars

theorem undisturbed_temporary {name : String} (hitem : name ≠ itemName)
    (hindex : isLoopIndex name = false) (depth : Nat) :
    Undisturbed (loopIndex depth) (.identifier name) := by
  constructor
  · rfl
  · simpa using hitem.symm
  · rw [vars_identifier, List.mem_singleton]
    rintro rfl
    rw [isLoopIndex_loopIndex] at hindex
    cases hindex

theorem root_ne_loopIndex {name : String} (h : Token.IsName name.toList) (depth : Nat) :
    Name.root name ≠ loopIndex depth := by
  obtain ⟨c, rest, hcs, hc, -⟩ := h
  intro heq
  have hlist := congrArg String.toList heq
  have hdot : (c != '.') = true := by
    rw [bne_iff_ne]
    rintro rfl
    cases hc
  rw [Name.root, hcs, List.takeWhile_cons, hdot, String.toList_ofList, loopIndex,
    String.toList_append] at hlist
  obtain ⟨rfl, -⟩ := List.cons.inj hlist
  cases hc

/-- The names of a source are no loop indices, so only what the options name can be one. -/
theorem mem_options_of_loopIndex_mem {o : Options} {node : Node} {depth : Nat}
    (hnames : Node.WritesOnly (fun name => Token.IsName name.toList) [node])
    (h : loopIndex depth ∈ node.vars o) :
    loopIndex depth ∈ (path o.requireCallee).vars ++ (path o.exportsTarget).vars := by
  obtain ⟨part, hpart, hmem⟩ := List.mem_flatMap.1 h
  have hwritten := hnames part (by simpa using hpart)
  rw [List.mem_append]
  cases part with
  | identifier name | get name _ | set name _ _ | call name _ =>
      have hroot := root_ne_loopIndex (hwritten name (List.mem_cons_self ..)) depth
      exact absurd (List.mem_singleton.1 hmem).symm hroot
  | useModule => exact .inl hmem
  | exportName name =>
      have hroot := root_ne_loopIndex (hwritten name (List.mem_cons_self ..)) depth
      rcases List.mem_append.1 hmem with htarget | hname
      · exact .inr htarget
      · exact absurd (List.mem_singleton.1 hname).symm hroot
  | _ => cases hmem

/-- A loop of the output over a node of the program.  Over an array it runs over a temporary, and
nothing disturbs it.  Over any other node the sequence that is evaluated in every round has the
calls, the assignments and the variables of the node.  The index of the loop is one of them only if
an option is the index. -/
def IsLoopOver (o : Options) (temporaries : List String) (source : Node) (loop : ESTree) : Prop :=
  ∃ depth s ss, loop = countingLoop s (loopIndex depth) ss ∧
    (source.kind = .array →
      (∃ name ∈ temporaries, s = .identifier name) ∧ Undisturbed (loopIndex depth) s) ∧
    (source.kind ≠ .array →
      s.effects = source.effects ∧ s.vars = source.vars o ∧
        (loopIndex depth ∈ s.vars →
          loopIndex depth ∈ (path o.requireCallee).vars ++ (path o.exportsTarget).vars))

theorem ComesFrom.isLoopOver {o : Options} {temporaries : List String} {program : List Node}
    {loop : ESTree} (h : ComesFrom o temporaries program loop)
    (hindex : ∀ name ∈ temporaries, isLoopIndex name = false) (hitem : itemName ∉ temporaries)
    (hnames : Node.WritesOnly (fun name => Token.IsName name.toList) program) :
    ∃ source body, .iterator source body ∈ Node.walkAll program ∧
      IsLoopOver o temporaries source loop := by
  obtain ⟨source, body, depth, s, ss, hiterator, heq, hruns⟩ := h
  refine ⟨source, body, hiterator, depth, s, ss, heq, fun hkind => ?_, fun hkind => ?_⟩
  · rw [RunsOver, if_pos hkind] at hruns
    obtain ⟨name, hname, rfl⟩ := hruns
    refine ⟨⟨name, hname, rfl⟩, undisturbed_temporary ?_ (hindex name hname) depth⟩
    rintro rfl
    exact hitem hname
  · rw [RunsOver, if_neg hkind] at hruns
    refine ⟨hruns.1, hruns.2, fun hmem => ?_⟩
    rw [hruns.2] at hmem
    apply mem_options_of_loopIndex_mem _ hmem
    intro node hnode
    apply hnames node (Node.walk_subset_walkAll hiterator _)
    rw [Node.walk]
    exact List.mem_cons_of_mem _ (List.mem_append_left _ (by simpa using hnode))

end Lowering

open Lowering

/-- Where a source is compiled without a warning, every loop of the output stands for an iterator of
the program.  Of the sequence that it evaluates in every round this fixes whether it makes a call or
an assignment and what variables it names: none but a temporary over an array, and otherwise those
that the source of the iterator writes. -/
theorem loopSource_of_compile {c : Configuration} {supply : Supply} {source : String}
    {lowered : Lowered} (h : compile c supply source = .ok lowered)
    (hwarnings : lowered.warnings = []) :
    ∃ program, parseSource source = .ok program ∧
      ∀ loop ∈ walkAll lowered.body, loop.isLoop → ∃ src body,
        .iterator src body ∈ Node.walkAll program ∧
          IsLoopOver c.lowering lowered.temporaries src loop := by
  obtain ⟨program, hparse, hlower⟩ := compile_eq_ok_iff.1 h
  obtain ⟨r, hlowers, -, htemporaries⟩ := lowers_of_lowerProgram hlower
  have hsound : r.Sound :=
    sound_of_lowers hlowers (Registry.sound_of_drawn_eq_nil (drawn_initialContext ..))
  have hitem : itemName ∉ r.drawn := by
    intro hmem
    apply hsound.not_mem_reserved _ hmem
    rw [reserved_of_lowers hlowers]
    exact mem_reserved_initialContext (by simp [reservedNames])
  refine ⟨program, hparse, fun loop hloop hfor => ?_⟩
  have hmem : loop ∈ ([] ++ lowered.body).flatMap ESTree.loops := by
    rw [walkAll_eq_flatMap] at hloop
    obtain ⟨e, he, hwalk⟩ := List.mem_flatMap.1 hloop
    exact List.mem_flatMap.2 ⟨e, he, List.mem_filter.2 ⟨hwalk, hfor⟩⟩
  have hcomes : ComesFrom c.lowering r.drawn program loop :=
    comesFrom_of_lowers hlowers hwarnings (Node.writesOnly_isRooted hparse)
      (fun _ hname => hname) (fun _ hnode => hnode) loop hmem
  rw [htemporaries]
  exact hcomes.isLoopOver hsound.isLoopIndex hitem (Node.writesOnly_isName hparse)

/-- The outer loop runs over a temporary, the inner one makes a call with the element of the outer
one. -/
theorem loopSource_of_compile_nested :
    ∃ lowered, compile {} (.ofSeed 0) "@[a]@(f item)(g)" = .ok lowered ∧ lowered.warnings = [] ∧
      lowered.temporaries = ["_t0"] ∧
      ∃ program, parseSource "@[a]@(f item)(g)" = .ok program ∧
        ∀ loop ∈ walkAll lowered.body, loop.isLoop → ∃ src body,
          .iterator src body ∈ Node.walkAll program ∧ IsLoopOver {} lowered.temporaries src loop := by
  have htokens : tokenize "@[a]@(f item)(g)" = .ok
      [⟨.mark .loop, ⟨0, 1⟩⟩, ⟨.mark .openBracket, ⟨1, 2⟩⟩, ⟨.identifier "a", ⟨2, 3⟩⟩,
        ⟨.mark .closeBracket, ⟨3, 4⟩⟩, ⟨.mark .loop, ⟨4, 5⟩⟩, ⟨.mark .openParen, ⟨5, 6⟩⟩,
        ⟨.identifier "f", ⟨6, 7⟩⟩, ⟨.identifier "item", ⟨8, 12⟩⟩, ⟨.mark .closeParen, ⟨12, 13⟩⟩,
        ⟨.mark .openParen, ⟨13, 14⟩⟩, ⟨.identifier "g", ⟨14, 15⟩⟩,
        ⟨.mark .closeParen, ⟨15, 16⟩⟩] :=
    eq_ok_of_toOption_eq_some (by decide +kernel)
  have hparse : parseSource "@[a]@(f item)(g)" =
      .ok [.iterator (.array [.identifier "a"])
        [.iterator (.call "f" [.identifier "item"]) [.call "g" []]]] := by
    refine parseSource_eq_ok_iff.2 ⟨_, htokens, parse_eq_ok_iff.2 ?_⟩
    exact .item (.iterator rfl (.array rfl (.more (by simp) (.identifier rfl) (.done rfl)))
      (.single (by simp) (.iterator rfl
        (.call rfl rfl (.more (by simp) (.identifier rfl) (.done rfl)) (.inr (by simp)))
        (.single (by simp) (.call rfl rfl (.done rfl) (.inr (by simp))))))) .nil
  have hlower : (lowerProgram {} (.ofSeed 0) [.iterator (.array [.identifier "a"])
      [.iterator (.call "f" [.identifier "item"]) [.call "g" []]]]).map
        (fun lowered => (lowered.warnings, lowered.temporaries)) = some ([], ["_t0"]) := by
    decide +kernel
  obtain ⟨lowered, hlowered, heq⟩ := Option.map_eq_some_iff.1 hlower
  obtain ⟨hwarnings, htemporaries⟩ := Prod.mk.inj heq
  have hcompile : compile {} (.ofSeed 0) "@[a]@(f item)(g)" = .ok lowered :=
    compile_eq_ok_iff.2 ⟨_, hparse, hlowered⟩
  exact ⟨lowered, hcompile, hwarnings, htemporaries, loopSource_of_compile hcompile hwarnings⟩

/-- The sequence of a loop can make a call or an assignment in every round, and it can name the
element that the loop itself declares. -/
theorem exists_disturbed_loops :
    ∃ lowered, compile {} (.ofSeed 0) "@(f)@set item b c(g item)" = .ok lowered ∧
      lowered.warnings = [] ∧ ∃ s ss s' ss',
        countingLoop s (loopIndex 0) ss ∈ walkAll lowered.body ∧ .call ∈ s.effects ∧
        countingLoop s' (loopIndex 1) ss' ∈ walkAll lowered.body ∧ .assignment ∈ s'.effects ∧
          itemName ∈ s'.vars := by
  have htokens : tokenize "@(f)@set item b c(g item)" = .ok
      [⟨.mark .loop, ⟨0, 1⟩⟩, ⟨.mark .openParen, ⟨1, 2⟩⟩, ⟨.identifier "f", ⟨2, 3⟩⟩,
        ⟨.mark .closeParen, ⟨3, 4⟩⟩, ⟨.mark .loop, ⟨4, 5⟩⟩, ⟨.keyword .set, ⟨5, 9⟩⟩,
        ⟨.identifier "item", ⟨9, 13⟩⟩, ⟨.identifier "b", ⟨14, 15⟩⟩, ⟨.identifier "c", ⟨16, 17⟩⟩,
        ⟨.mark .openParen, ⟨17, 18⟩⟩, ⟨.identifier "g", ⟨18, 19⟩⟩, ⟨.identifier "item", ⟨20, 24⟩⟩,
        ⟨.mark .closeParen, ⟨24, 25⟩⟩] :=
    eq_ok_of_toOption_eq_some (by decide +kernel)
  have hparse : parseSource "@(f)@set item b c(g item)" =
      .ok [.iterator (.call "f" [])
        [.iterator (.set "item" (.identifier "b") (.identifier "c"))
          [.call "g" [.identifier "item"]]]] := by
    refine parseSource_eq_ok_iff.2 ⟨_, htokens, parse_eq_ok_iff.2 ?_⟩
    exact .item (.iterator rfl (.call rfl rfl (.done rfl) (.inr (by simp)))
      (.single (by simp) (.iterator rfl (.set rfl rfl rfl (.identifier rfl))
        (.single (by simp)
          (.call rfl rfl (.more (by simp) (.identifier rfl) (.done rfl)) (.inr (by simp))))))) .nil
  have hlower : lowerProgram {} (.ofSeed 0) [.iterator (.call "f" [])
      [.iterator (.set "item" (.identifier "b") (.identifier "c"))
        [.call "g" [.identifier "item"]]]] = some
        ⟨[countingLoop (callExpression (path "f") []) (loopIndex 0)
          [countingLoop (assignmentExpression (index (path "item") (path "b")) (path "c"))
            (loopIndex 1) [expressionStatement (callExpression (path "g") [path "item"])]]],
          [], [], []⟩ := rfl
  refine ⟨_, compile_eq_ok_iff.2 ⟨_, hparse, hlower⟩, rfl, callExpression (path "f") [], _,
    assignmentExpression (index (path "item") (path "b")) (path "c"),
    [expressionStatement (callExpression (path "g") [path "item"])], .head _, by decide, ?_,
    by decide, by decide⟩
  simp only [countingLoop, walkAll, walk, List.mem_cons, List.mem_append]
  simp

end LijsCompiler
