import LijsCompiler.Lowering.Program
import LijsCompiler.Proofs.Lowering.Rules
import LijsCompiler.Proofs.Node.Children

/-!
# Runs follow the rules

In every context, what a run of the lowering gives is what the rules say, and the context changes
by nothing else: what is hoisted and what is warned of comes after what was there, and the depth of
loops is the same as before (`follows`).
-/

namespace LijsCompiler.Lowering

def Context.after (c : Context) (hs : List ESTree) (ws : List Warning) (r : Registry) : Context :=
  ⟨r, c.hoisted ++ hs, c.depth, c.warnings ++ ws⟩

section Runs

variable {α β : Type} {c c' : Context}

@[simp] theorem after_registry (hs : List ESTree) (ws : List Warning) (r : Registry) :
    (c.after hs ws r).registry = r := rfl

@[simp] theorem after_depth (hs : List ESTree) (ws : List Warning) (r : Registry) :
    (c.after hs ws r).depth = c.depth := rfl

@[simp] theorem after_nothing : c.after [] [] c.registry = c := by
  simp [Context.after]

@[simp] theorem after_after (hs hs' : List ESTree) (ws ws' : List Warning) (r r' : Registry) :
    (c.after hs ws r).after hs' ws' r' = c.after (hs ++ hs') (ws ++ ws') r' := by
  simp [Context.after]

/-! ## Runs of the single steps -/

theorem run_bind_eq_some {step : Lower α} {next : α → Lower β} {b : β} :
    (step >>= next).run c = some (b, c') ↔
      ∃ a c₁, step.run c = some (a, c₁) ∧ (next a).run c₁ = some (b, c') := by
  simp [StateT.run_bind, Option.bind_eq_some_iff]

theorem run_pure_eq_some {a b : α} :
    (pure a : Lower α).run c = some (b, c') ↔ b = a ∧ c' = c := by
  simp [StateT.run_pure, eq_comm]

theorem run_expectStatement (kind : NodeKind) (place : Place) :
    (place.expectStatement kind).run c =
      some ((), c.after [] (place.warnings kind) c.registry) := by
  cases place with
  | statement => simp [Place.expectStatement, Place.warnings]
  | value => simp [Place.expectStatement, Place.warnings, Context.after]

theorem run_introduce (name : String) :
    (introduce name).run c = some ((), c.after [] [] (c.registry.introduce name)) := by
  simp [introduce, Context.after]

theorem run_forM_introduce (names : List String) :
    (names.forM introduce).run c =
      some (⟨⟩, c.after [] [] (names.foldl Registry.introduce c.registry)) := by
  induction names generalizing c with
  | nil => simp
  | cons name names ih =>
      change (introduce name >>= fun _ => names.forM introduce).run c = _
      rw [StateT.run_bind, run_introduce]
      change (names.forM introduce).run _ = _
      rw [ih]
      simp

theorem run_bindName (name : String) (init : ESTree) :
    (bindName name init).run c = some (bound name init, c.after [] [] (c.registry.bind name)) := by
  unfold bindName bound Registry.bind
  by_cases hdot : Name.isDotted name
  · simp [hdot]
  · simp [hdot, run_introduce]

theorem run_fresh_eq_some {name : String} :
    fresh.run c = some (name, c') ↔
      ∃ r, c.registry.fresh? = some (name, r) ∧ c' = c.after [] [] r := by
  unfold fresh
  rw [run_bind_eq_some]
  constructor
  · rintro ⟨_, _, ⟨⟩, h⟩
    split at h
    · cases h
    · rename_i found r hfresh
      cases h
      exact ⟨r, hfresh, by simp [Context.after]⟩
  · rintro ⟨r, hfresh, rfl⟩
    refine ⟨c, c, rfl, ?_⟩
    rw [hfresh]
    simp [Context.after]

theorem run_withOwnBuffer_eq_some {step : Lower α} {a : α} :
    (withOwnBuffer step).run c = some (a, c') ↔
      ∃ c₁, step.run { c with hoisted := [] } = some (a, c₁) ∧
        c' = { c₁ with hoisted := c.hoisted } := by
  unfold withOwnBuffer takeHoisted
  rw [run_bind_eq_some]
  constructor
  · rintro ⟨_, _, ⟨⟩, h⟩
    obtain ⟨b, c₁, hstep, h⟩ := run_bind_eq_some.1 h
    cases h
    exact ⟨c₁, hstep, rfl⟩
  · rintro ⟨c₁, hstep, rfl⟩
    exact ⟨_, _, rfl, run_bind_eq_some.2 ⟨a, c₁, hstep, rfl⟩⟩

theorem run_deeper_eq_some {step : Lower α} {a : α} :
    (deeper step).run c = some (a, c') ↔
      ∃ c₁, step.run { c with depth := c.depth + 1 } = some (a, c₁) ∧
        c' = { c₁ with depth := c₁.depth - 1 } := by
  unfold deeper
  rw [run_bind_eq_some]
  constructor
  · rintro ⟨_, _, ⟨⟩, h⟩
    obtain ⟨b, c₁, hstep, h⟩ := run_bind_eq_some.1 h
    cases h
    exact ⟨c₁, hstep, rfl⟩
  · rintro ⟨c₁, hstep, rfl⟩
    exact ⟨_, _, rfl, run_bind_eq_some.2 ⟨a, c₁, hstep, rfl⟩⟩

theorem run_expectStatement_bind (kind : NodeKind) (place : Place) (next : Unit → Lower α) :
    (place.expectStatement kind >>= next).run c =
      (next ()).run (c.after [] (place.warnings kind) c.registry) := by
  rw [StateT.run_bind, run_expectStatement]
  rfl

theorem run_define_bind (name : String) (params : List String) (next : Lower α) :
    (do
      if !Name.isDotted name then introduce name
      params.forM introduce
      next : Lower α).run c = next.run (c.after [] [] (c.registry.define name params)) := by
  unfold Registry.define Registry.bind
  by_cases hdot : Name.isDotted name
  · simp only [hdot, Bool.not_true, Bool.false_eq_true, if_false, if_true]
    rw [StateT.run_bind, run_forM_introduce]
    rfl
  · simp only [hdot, Bool.not_false, Bool.false_eq_true, if_false, if_true]
    rw [StateT.run_bind, run_introduce]
    change (params.forM introduce >>= fun _ => next).run _ = _
    rw [StateT.run_bind, run_forM_introduce]
    simp

end Runs

/-! ## Runs follow the rules -/

/-- Every run of a node follows the rules, whatever its place and the context. -/
def Follows (o : Options) (node : Node) : Prop :=
  ∀ place c e c', (lowerNode o place node).run c = some (e, c') →
    ∃ hs ws r, Lowers o (.node place node) c.depth c.registry [e] hs ws r ∧ c' = c.after hs ws r

section Soundness

variable {o : Options} {c c' : Context}

theorem lowers_of_lowerValues {nodes : List Node} (hnodes : ∀ node ∈ nodes, Follows o node)
    {es : List ESTree} (h : (lowerValues o nodes).run c = some (es, c')) :
    ∃ hs ws r, Lowers o (.values nodes) c.depth c.registry es hs ws r ∧ c' = c.after hs ws r := by
  induction nodes generalizing c c' es with
  | nil =>
      rw [lowerValues, run_pure_eq_some] at h
      obtain ⟨rfl, rfl⟩ := h
      exact ⟨[], [], c'.registry, .noValues, after_nothing.symm⟩
  | cons node nodes ih =>
      rw [lowerValues, run_bind_eq_some] at h
      obtain ⟨e, c₁, hnode, h⟩ := h
      rw [run_bind_eq_some] at h
      obtain ⟨es', c₂, hrest, h⟩ := h
      rw [run_pure_eq_some] at h
      obtain ⟨rfl, rfl⟩ := h
      obtain ⟨hs, ws, r, hfirst, rfl⟩ := hnodes node (by simp) _ _ _ _ hnode
      obtain ⟨hs', ws', r', hothers, rfl⟩ := ih (fun m hm => hnodes m (by simp [hm])) hrest
      exact ⟨hs ++ hs', ws ++ ws', r', .values hfirst hothers, after_after ..⟩

theorem lowers_of_lowerNode_value {node : Node} (hnode : Follows o node) {e : ESTree}
    (h : (lowerNode o .value node).run c = some (e, c')) :
    ∃ hs ws r, Lowers o (.values [node]) c.depth c.registry [e] hs ws r ∧
      c' = c.after hs ws r := by
  apply lowers_of_lowerValues
  · simpa using hnode
  · rw [lowerValues, run_bind_eq_some]
    refine ⟨e, c', h, ?_⟩
    simp [lowerValues]

theorem lowers_of_lowerNode_pair {first second : Node} (hfirst : Follows o first)
    (hsecond : Follows o second) {c₁ : Context} {x y : ESTree}
    (hx : (lowerNode o .value first).run c = some (x, c₁))
    (hy : (lowerNode o .value second).run c₁ = some (y, c')) :
    ∃ hs ws r, Lowers o (.values [first, second]) c.depth c.registry [x, y] hs ws r ∧
      c' = c.after hs ws r := by
  apply lowers_of_lowerValues
  · simp [hfirst, hsecond]
  · rw [lowerValues, run_bind_eq_some]
    refine ⟨x, c₁, hx, ?_⟩
    rw [lowerValues, bind_assoc, run_bind_eq_some]
    refine ⟨y, c', hy, ?_⟩
    simp [lowerValues]

theorem lowers_of_lowerOption {value : Option Node} (hvalue : ∀ node ∈ value, Follows o node)
    {found : Option ESTree} (h : (lowerOption o value).run c = some (found, c')) :
    ∃ hs ws r, Lowers o (.values value.toList) c.depth c.registry found.toList hs ws r ∧
      c' = c.after hs ws r := by
  cases value with
  | none =>
      rw [lowerOption, run_pure_eq_some] at h
      obtain ⟨rfl, rfl⟩ := h
      exact ⟨[], [], c'.registry, .noValues, after_nothing.symm⟩
  | some node =>
      rw [lowerOption, run_bind_eq_some] at h
      obtain ⟨e, c₁, hnode, h⟩ := h
      rw [run_pure_eq_some] at h
      obtain ⟨rfl, rfl⟩ := h
      exact lowers_of_lowerNode_value (hvalue node rfl) hnode

theorem lowers_of_lowerStatements {nodes : List Node} (hnodes : ∀ node ∈ nodes, Follows o node)
    {ss : List ESTree} (hempty : c.hoisted = [])
    (h : (lowerStatements o nodes).run c = some (ss, c')) :
    ∃ ws r, Lowers o (.block nodes) c.depth c.registry ss [] ws r ∧ c' = c.after [] ws r := by
  induction nodes generalizing c c' ss with
  | nil =>
      rw [lowerStatements, run_pure_eq_some] at h
      obtain ⟨rfl, rfl⟩ := h
      exact ⟨[], c'.registry, .emptyBlock, after_nothing.symm⟩
  | cons node nodes ih =>
      rw [lowerStatements, run_bind_eq_some] at h
      obtain ⟨e, c₁, hnode, h⟩ := h
      obtain ⟨hs, ws, r, hfirst, rfl⟩ := hnodes node (by simp) _ _ _ _ hnode
      rw [run_bind_eq_some] at h
      obtain ⟨declarations, c₂, htake, h⟩ := h
      -- the buffer holds what this statement hoisted, and is empty again for the next one
      obtain ⟨rfl, rfl⟩ : declarations = hs ∧ c₂ = c.after [] ws r := by
        have heq := Option.some.inj htake
        rw [Prod.mk.injEq] at heq
        simp [← heq.1, ← heq.2, Context.after, hempty]
      rw [run_bind_eq_some] at h
      obtain ⟨ss', c₃, hrest, h⟩ := h
      rw [run_pure_eq_some] at h
      obtain ⟨rfl, rfl⟩ := h
      have hstill : (c.after [] ws r).hoisted = [] := by simp [Context.after, hempty]
      obtain ⟨ws', r', hothers, rfl⟩ := ih (fun m hm => hnodes m (by simp [hm])) hstill hrest
      exact ⟨ws ++ ws', r', .block hfirst hothers, after_after ..⟩

theorem lowers_of_lowerBlock {nodes : List Node} (hnodes : ∀ node ∈ nodes, Follows o node)
    {ss : List ESTree} (h : (withOwnBuffer (lowerStatements o nodes)).run c = some (ss, c')) :
    ∃ ws r, Lowers o (.block nodes) c.depth c.registry ss [] ws r ∧ c' = c.after [] ws r := by
  obtain ⟨c₁, hrun, rfl⟩ := run_withOwnBuffer_eq_some.1 h
  obtain ⟨ws, r, hlowers, rfl⟩ := lowers_of_lowerStatements hnodes rfl hrun
  exact ⟨ws, r, hlowers, by simp [Context.after]⟩

theorem lowers_of_lowerLoopBody {nodes : List Node} (hnodes : ∀ node ∈ nodes, Follows o node)
    {ss : List ESTree}
    (h : (deeper (withOwnBuffer (lowerStatements o nodes))).run c = some (ss, c')) :
    ∃ ws r, Lowers o (.block nodes) (c.depth + 1) c.registry ss [] ws r ∧
      c' = c.after [] ws r := by
  obtain ⟨c₁, hrun, rfl⟩ := run_deeper_eq_some.1 h
  obtain ⟨ws, r, hlowers, rfl⟩ := lowers_of_lowerBlock hnodes hrun
  exact ⟨ws, r, hlowers, by simp [Context.after]⟩

theorem lowers_of_lowerIterator {source : Node} {body : List Node} (place : Place)
    (hsource : Follows o source) (hbody : ∀ node ∈ body, Follows o node) {e : ESTree}
    (h : (lowerNode o place (.iterator source body)).run c = some (e, c')) :
    ∃ hs ws r, Lowers o (.node place (.iterator source body)) c.depth c.registry [e] hs ws r ∧
      c' = c.after hs ws r := by
  rw [lowerNode, run_expectStatement_bind, run_bind_eq_some] at h
  obtain ⟨s, c₁, hvalue, h⟩ := h
  obtain ⟨hs, ws, r, hlowers, rfl⟩ := lowers_of_lowerNode_value hsource hvalue
  rw [run_bind_eq_some] at h
  obtain ⟨s', c₂, hloop, h⟩ := h
  rw [run_bind_eq_some] at h
  obtain ⟨c₃, c₄, hget, h⟩ := h
  cases hget
  rw [run_bind_eq_some] at h
  obtain ⟨ss, c₅, hss, h⟩ := h
  rw [run_pure_eq_some] at h
  obtain ⟨rfl, rfl⟩ := h
  obtain ⟨ws', r', hblock, rfl⟩ := lowers_of_lowerLoopBody hbody hss
  by_cases harray : ∃ elements, s = .arrayExpression elements
  · obtain ⟨elements, rfl⟩ := harray
    rw [loopSource, run_bind_eq_some] at hloop
    obtain ⟨name, c₆, hdraw, hloop⟩ := hloop
    obtain ⟨r₂, hfresh, rfl⟩ := run_fresh_eq_some.1 hdraw
    cases hloop
    exact ⟨_, _, _, .iteratorArray hlowers hfresh hblock, by simp [Context.after]⟩
  · have hne : ∀ elements, s ≠ .arrayExpression elements := by
      intro elements heq
      exact harray ⟨elements, heq⟩
    have hsame : loopSource s = pure s := by
      cases s with
      | arrayExpression elements => exact absurd rfl (hne elements)
      | _ => rfl
    rw [hsame, run_pure_eq_some] at hloop
    obtain ⟨rfl, rfl⟩ := hloop
    exact ⟨_, _, _, .iterator hlowers hne hblock, by simp⟩

theorem lowers_of_lowerConditional {check : Check} {left : Node} {right : Option Node}
    {pass : List Node} {fail : Option (List Node)} (place : Place) (hleft : Follows o left)
    (hright : ∀ node ∈ right, Follows o node) (hpass : ∀ node ∈ pass, Follows o node)
    (hfail : ∀ node ∈ fail.getD [], Follows o node) {e : ESTree}
    (h : (lowerNode o place (.conditional check left right pass fail)).run c = some (e, c')) :
    ∃ hs ws r, Lowers o (.node place (.conditional check left right pass fail)) c.depth
      c.registry [e] hs ws r ∧ c' = c.after hs ws r := by
  rw [lowerNode, run_expectStatement_bind, run_bind_eq_some] at h
  obtain ⟨l, c₁, hrun, h⟩ := h
  obtain ⟨hs₁, ws₁, r₁, hl, rfl⟩ := hleft _ _ _ _ hrun
  rw [run_bind_eq_some] at h
  obtain ⟨found, c₂, hrun, h⟩ := h
  obtain ⟨hs₂, ws₂, r₂, hfound, rfl⟩ := lowers_of_lowerOption hright hrun
  have hoperands := Lowers.values hl hfound
  rw [run_bind_eq_some] at h
  obtain ⟨ps, c₃, hrun, h⟩ := h
  obtain ⟨ws₃, r₃, hps, rfl⟩ := lowers_of_lowerBlock hpass hrun
  rw [run_bind_eq_some] at h
  obtain ⟨branch, c₄, hbranch, h⟩ := h
  rw [run_pure_eq_some] at h
  obtain ⟨rfl, rfl⟩ := h
  cases fail with
  | none =>
      rw [lowerBranch, run_pure_eq_some] at hbranch
      obtain ⟨rfl, rfl⟩ := hbranch
      have hlowers : Lowers o (.node place (.conditional check left right pass none)) _ _ _ _ _ _ :=
        .conditional hoperands hps
      rw [Option.head?_toList] at hlowers
      exact ⟨_, _, _, hlowers, by simp⟩
  | some nodes =>
      rw [lowerBranch, run_bind_eq_some] at hbranch
      obtain ⟨fs, c₅, hrun, hbranch⟩ := hbranch
      obtain ⟨ws₄, r₄, hfs, rfl⟩ := lowers_of_lowerBlock hfail hrun
      rw [run_pure_eq_some] at hbranch
      obtain ⟨rfl, rfl⟩ := hbranch
      have hlowers :
          Lowers o (.node place (.conditional check left right pass (some nodes))) _ _ _ _ _ _ :=
        .conditionalElse hoperands hps hfs
      rw [Option.head?_toList] at hlowers
      exact ⟨_, _, _, hlowers, by simp⟩

theorem follows_of_children (node : Node) (ih : ∀ child ∈ node.children, Follows o child) :
    Follows o node := by
  intro place c e c' h
  cases node with
  | identifier text | integer text | float text | string text =>
      rw [lowerNode, run_pure_eq_some] at h
      obtain ⟨rfl, rfl⟩ := h
      exact ⟨[], [], c'.registry, by constructor, after_nothing.symm⟩
  | array elements =>
      rw [lowerNode, run_bind_eq_some] at h
      obtain ⟨es, c₁, helements, h⟩ := h
      rw [run_pure_eq_some] at h
      obtain ⟨rfl, rfl⟩ := h
      obtain ⟨hs, ws, r, hlowers, rfl⟩ := lowers_of_lowerValues ih helements
      exact ⟨hs, ws, r, .array hlowers, rfl⟩
  | call name args =>
      rw [lowerNode, run_bind_eq_some] at h
      obtain ⟨es, c₁, hargs, h⟩ := h
      rw [run_pure_eq_some] at h
      obtain ⟨rfl, rfl⟩ := h
      obtain ⟨hs, ws, r, hlowers, rfl⟩ := lowers_of_lowerValues ih hargs
      exact ⟨hs, ws, r, .call hlowers, rfl⟩
  | assignment name value =>
      rw [lowerNode, run_expectStatement_bind, run_bind_eq_some] at h
      obtain ⟨init, c₁, hvalue, h⟩ := h
      have hfollows : Follows o value := ih value (by simp [Node.children])
      obtain ⟨hs, ws, r, hlowers, rfl⟩ := lowers_of_lowerNode_value hfollows hvalue
      rw [run_bindName] at h
      cases h
      exact ⟨hs, _, _, .assignment hlowers, by simp⟩
  | create name =>
      rw [lowerNode, run_expectStatement_bind, run_bindName] at h
      cases h
      exact ⟨[], _, _, .create, by simp⟩
  | get name key =>
      rw [lowerNode, run_bind_eq_some] at h
      obtain ⟨k, c₁, hkey, h⟩ := h
      rw [run_pure_eq_some] at h
      obtain ⟨rfl, rfl⟩ := h
      have hfollows : Follows o key := ih key (by simp [Node.children])
      obtain ⟨hs, ws, r, hlowers, rfl⟩ := lowers_of_lowerNode_value hfollows hkey
      exact ⟨hs, ws, r, .get hlowers, rfl⟩
  | set name key value =>
      rw [lowerNode, run_bind_eq_some] at h
      obtain ⟨k, c₁, hk, h⟩ := h
      rw [run_bind_eq_some] at h
      obtain ⟨v, c₂, hv, h⟩ := h
      rw [run_pure_eq_some] at h
      obtain ⟨rfl, rfl⟩ := h
      have hkey : Follows o key := ih key (by simp [Node.children])
      have hvalue : Follows o value := ih value (by simp [Node.children])
      obtain ⟨hs, ws, r, hlowers, rfl⟩ := lowers_of_lowerNode_pair hkey hvalue hk hv
      exact ⟨hs, ws, r, .set hlowers, rfl⟩
  | arithmetic op left right =>
      rw [lowerNode, run_bind_eq_some] at h
      obtain ⟨x, c₁, hx, h⟩ := h
      rw [run_bind_eq_some] at h
      obtain ⟨y, c₂, hy, h⟩ := h
      rw [run_pure_eq_some] at h
      obtain ⟨rfl, rfl⟩ := h
      have hleft : Follows o left := ih left (by simp [Node.children])
      have hright : Follows o right := ih right (by simp [Node.children])
      obtain ⟨hs, ws, r, hlowers, rfl⟩ := lowers_of_lowerNode_pair hleft hright hx hy
      exact ⟨hs, ws, r, .arithmetic hlowers, rfl⟩
  | useModule path binding =>
      cases binding with
      | none =>
          rw [lowerNode, run_pure_eq_some] at h
          obtain ⟨rfl, rfl⟩ := h
          exact ⟨[], [], c'.registry, .useModule, after_nothing.symm⟩
      | some name =>
          rw [lowerNode, run_expectStatement_bind, run_bindName] at h
          cases h
          exact ⟨[], _, _, .useModuleAs, by simp⟩
  | exportName name =>
      rw [lowerNode, run_pure_eq_some] at h
      obtain ⟨rfl, rfl⟩ := h
      exact ⟨[], [], c'.registry, .exportName, after_nothing.symm⟩
  | function name params body =>
      rw [lowerNode, run_expectStatement_bind, run_define_bind, run_bind_eq_some] at h
      obtain ⟨ss, c₁, hbody, h⟩ := h
      rw [run_pure_eq_some] at h
      obtain ⟨rfl, rfl⟩ := h
      obtain ⟨ws, r, hlowers, rfl⟩ := lowers_of_lowerBlock ih hbody
      exact ⟨[], _, _, .function hlowers, by simp⟩
  | iterator source body =>
      refine lowers_of_lowerIterator place (ih source (by simp [Node.children])) ?_ h
      exact fun node hnode => ih node (by simp [Node.children, hnode])
  | conditional check left right pass fail =>
      refine lowers_of_lowerConditional place (ih left (by simp [Node.children])) ?_ ?_ ?_ h
      · exact fun node hnode => ih node (by simp_all [Node.children])
      · exact fun node hnode => ih node (by simp [Node.children, hnode])
      · exact fun node hnode => ih node (by simp [Node.children, hnode])
  | result value =>
      rw [lowerNode, run_expectStatement_bind, run_bind_eq_some] at h
      obtain ⟨found, c₁, hvalue, h⟩ := h
      rw [run_pure_eq_some] at h
      obtain ⟨rfl, rfl⟩ := h
      have hfollows : ∀ node ∈ value, Follows o node := fun node hnode =>
        ih node (by simp_all [Node.children])
      obtain ⟨hs, ws, r, hlowers, rfl⟩ := lowers_of_lowerOption hfollows hvalue
      have hresult : Lowers o (.node place (.result value)) _ _ _ _ _ _ := .result hlowers
      rw [Option.head?_toList] at hresult
      exact ⟨_, _, _, hresult, by simp⟩

theorem follows (o : Options) (node : Node) : Follows o node := by
  induction node using Node.children_induction with
  | step node ih => exact follows_of_children node ih

end Soundness

/-- A program is lowered by the rules, from a registry that knows its names. -/
theorem lowers_of_lowerProgram {o : Options} {supply : Supply} {program : List Node}
    {lowered : Lowered} (h : lowerProgram o supply program = some lowered) :
    ∃ r, Lowers o (.block program) 0 (initialContext o supply program).registry lowered.body []
      lowered.warnings r ∧ lowered.names = r.introduced ∧ lowered.temporaries = r.drawn := by
  unfold lowerProgram at h
  obtain ⟨⟨body, c⟩, hrun, h⟩ := Option.bind_eq_some_iff.1 h
  cases h
  obtain ⟨ws, r, hlowers, rfl⟩ := lowers_of_lowerBlock (fun node _ => follows o node) hrun
  exact ⟨r, by simpa [Context.after, initialContext] using hlowers, rfl, rfl⟩

end LijsCompiler.Lowering
