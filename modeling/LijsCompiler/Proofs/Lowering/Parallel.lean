import LijsCompiler.Proofs.ESTree.Renaming
import LijsCompiler.Proofs.Lowering.Draws
import LijsCompiler.Proofs.Lowering.Shape
import LijsCompiler.Proofs.Parser.Names

/-!
# Two runs side by side

Two runs that lower the same nodes differ in the temporaries they draw and in nothing else.  Both
draw one for each loop over an array that is written out (`length_drawn_of_lowers`), and the
renaming that takes the temporaries of the one run to those of the other takes the whole output of
the one to that of the other (`inStep_of_lowers`).  The second run may begin in the middle of a
program: what it knew before stays in front.
-/

namespace LijsCompiler.Lowering

open ESTree

/-! ## Renaming what the rules build -/

/-- A renaming that leaves alone loop indices and the names of at most `width` characters, among
them those that lowering writes of its own accord. -/
structure Keeps (o : Options) (width : Nat) (f : String → String) : Prop where
  short : ∀ name : String, name.length ≤ width → f name = name
  loopIndex : ∀ depth, f (loopIndex depth) = loopIndex depth
  indexOf : "indexOf".length ≤ width
  requireCallee : o.requireCallee.length ≤ width
  exportsTarget : o.exportsTarget.length ≤ width

section Renaming

variable {o : Options} {width : Nat} {f : String → String}

@[simp] theorem rename_embed (f : String → String) (place : Place) (e : ESTree) :
    (place.embed e).rename f = place.embed (e.rename f) := by
  cases place <;> rfl

@[simp] theorem rename_numberLiteral (f : String → String) (text : String) :
    (numberLiteral text).rename f = numberLiteral text := rfl

theorem rename_resultOf (f : String → String) (e : ESTree) :
    (resultOf e).rename f = resultOf (e.rename f) := by
  cases e with
  | expressionStatement e => rfl
  | _ => simp [resultOf, isExpression, rename]

theorem map_rename_withResult (f : String → String) (body : List Node) (ss : List ESTree) :
    (withResult body ss).map (rename f) = withResult body (ss.map (rename f)) := by
  unfold withResult
  split
  · rfl
  · split
    · rfl
    · cases hlast : ss.getLast? <;> simp [List.map_dropLast, hlast, rename_resultOf]

theorem Keeps.rename_path (hf : Keeps o width f) {name : String} (hname : name.length ≤ width) :
    (path name).rename f = path name := by
  apply ESTree.rename_path (hf.short name hname)
  intro part hpart
  exact hf.short part (Nat.le_trans (Name.length_le_of_mem_members hpart) hname)

theorem Keeps.rename_bound (hf : Keeps o width f) {name : String} (hname : name.length ≤ width)
    (init : ESTree) : (bound name init).rename f = bound name (init.rename f) := by
  unfold bound
  split
  · rw [rename, rename, hf.rename_path hname]
  · rw [rename_declare, hf.short name hname]

theorem Keeps.rename_require (hf : Keeps o width f) (text : String) :
    (require o text).rename f = require o text := by
  simp [require, rename, hf.rename_path hf.requireCallee]

theorem Keeps.rename_exported (hf : Keeps o width f) {name : String} (hname : name.length ≤ width) :
    (exported o name).rename f = exported o name := by
  have htail : f (Name.tail name) = Name.tail name :=
    hf.short _ (Nat.le_trans (Name.length_tail_le name) hname)
  simp [exported, rename, hf.rename_path hf.exportsTarget, hf.rename_path hname, htail]

theorem Keeps.rename_testOf (hf : Keeps o width f) (check : Check) (l : ESTree)
    (rs : List ESTree) :
    (testOf check l rs.head?).rename f = testOf check (l.rename f) (rs.map (rename f)).head? := by
  cases rs with
  | nil => cases check <;> rfl
  | cons x others =>
      have hindexOf := hf.short "indexOf" hf.indexOf
      cases check <;> simp [testOf, rename, hindexOf]

theorem Keeps.rename_countingLoop (hf : Keeps o width f) (source : ESTree) (depth : Nat)
    (ss : List ESTree) :
    (countingLoop source (LijsCompiler.loopIndex depth) ss).rename f =
      countingLoop (source.rename f) (LijsCompiler.loopIndex depth) (ss.map (rename f)) := by
  have hlength : f "length" = "length" := hf.short _ (Nat.le_trans (by decide) hf.indexOf)
  have hitem : f itemName = itemName := hf.short _ (Nat.le_trans (by decide) hf.indexOf)
  simp [countingLoop, rename, hlength, hitem, hf.loopIndex]

end Renaming

/-! ## How many temporaries are drawn -/

def loopsOverArray : Node → Bool
  | .iterator (.array _) _ => true
  | _ => false

/-- The number of loops over arrays that are written out. -/
def arrayLoops (nodes : List Node) : Nat := (Node.walkAll nodes).countP loopsOverArray

theorem arrayLoops_nil : arrayLoops [] = 0 := rfl

theorem arrayLoops_append (nodes others : List Node) :
    arrayLoops (nodes ++ others) = arrayLoops nodes + arrayLoops others := by
  simp [arrayLoops, List.countP_append]

theorem arrayLoops_cons (node : Node) (nodes : List Node) :
    arrayLoops (node :: nodes) = arrayLoops [node] + arrayLoops nodes :=
  arrayLoops_append [node] nodes

theorem arrayLoops_singleton (node : Node) :
    arrayLoops [node] = (if loopsOverArray node then 1 else 0) + arrayLoops node.children := by
  unfold arrayLoops
  rw [Node.walkAll_eq_flatMap, List.flatMap_singleton, Node.walk_eq, List.countP_cons,
    Node.walkAll_eq_flatMap, Nat.add_comm]

theorem arrayLoops_iterator (source : Node) (body : List Node) :
    arrayLoops [.iterator source body] =
      (if loopsOverArray (.iterator source body) then 1 else 0) +
        (arrayLoops [source] + arrayLoops body) := by
  rw [arrayLoops_singleton, Node.children, ← arrayLoops_cons]

theorem arrayLoops_conditional (check : Check) (left : Node) (right : Option Node)
    (pass : List Node) (fail : Option (List Node)) :
    arrayLoops [.conditional check left right pass fail] =
      arrayLoops (left :: right.toList) + arrayLoops pass + arrayLoops (fail.getD []) := by
  have hother : ¬ loopsOverArray (.conditional check left right pass fail) := nofun
  rw [arrayLoops_singleton, if_neg hother, Nat.zero_add, Node.children, arrayLoops_append,
    arrayLoops_append]

theorem path_ne_arrayExpression (name : String) (elements : List ESTree) :
    path name ≠ arrayExpression elements := by
  apply path_induction (P := fun e => e ≠ arrayExpression elements)
  · intro name h
    cases h
  · intro object property _ h
    cases h

theorem bound_ne_arrayExpression (name : String) (init : ESTree) (elements : List ESTree) :
    bound name init ≠ arrayExpression elements := by
  unfold bound
  split <;> exact nofun

section Draws

variable {o : Options} {form : Form} {depth : Nat} {r r' : Registry} {es hs : List ESTree}
  {ws : List Warning}

/-- Only an array becomes an array. -/
theorem exists_eq_arrayExpression_iff {node : Node} {e : ESTree}
    (h : Lowers o (.values [node]) depth r [e] hs ws r') :
    (∃ elements, e = arrayExpression elements) ↔ ∃ elements, node = .array elements := by
  cases h with
  | values hnode _ =>
      cases hnode with
      | array _ => simp [Place.embed]
      | identifier => simp [path_ne_arrayExpression]
      | assignment | create | useModuleAs => simp [bound_ne_arrayExpression]
      | _ =>
          simp [Place.embed, numberLiteral, number, ESTree.string, index, require, exported,
            countingLoop]

theorem loopsOverArray_of_lowers {source : Node} {body : List Node} {e : ESTree}
    (h : Lowers o (.values [source]) depth r [e] hs ws r') :
    loopsOverArray (.iterator source body) ↔ ∃ elements, e = arrayExpression elements := by
  rw [exists_eq_arrayExpression_iff h]
  cases source <;> simp [loopsOverArray]

/-- One temporary is drawn for each loop over an array that is written out. -/
theorem length_drawn_of_lowers (h : Lowers o form depth r es hs ws r') :
    r'.drawn.length = r.drawn.length + arrayLoops form.nodes := by
  induction h with
  | identifier | integer | float | string | useModule | exportName | noValues | emptyBlock =>
      rfl
  | create | useModuleAs => exact congrArg List.length (Registry.drawn_bind _ _)
  | array _ ih | get _ ih | set _ ih | call _ ih | arithmetic _ ih | result _ ih =>
      rw [ih]
      simp [Form.nodes, arrayLoops_singleton, loopsOverArray, Node.children]
  | assignment _ ih =>
      rw [Registry.drawn_bind, ih]
      simp [Form.nodes, arrayLoops_singleton, loopsOverArray, Node.children]
  | function _ ih =>
      rw [ih, Registry.drawn_define]
      simp [Form.nodes, arrayLoops_singleton, loopsOverArray, Node.children]
  | @iteratorArray _ source body _ _ _ _ _ _ _ _ _ _ _ hsource hfresh _ ihsource ihbody =>
      have hloops : loopsOverArray (.iterator source body) :=
        (loopsOverArray_of_lowers hsource).2 ⟨_, rfl⟩
      simp only [Form.nodes] at ihsource ihbody ⊢
      rw [ihbody, (Registry.draws_of_fresh? hfresh).drawn, List.length_append, ihsource,
        arrayLoops_iterator, if_pos hloops, List.length_singleton]
      omega
  | @iterator _ source body _ _ _ _ _ _ _ _ _ hsource harray _ ihsource ihbody =>
      have hloops : ¬ loopsOverArray (.iterator source body) := by
        rw [loopsOverArray_of_lowers hsource]
        rintro ⟨elements, heq⟩
        exact harray elements heq
      simp only [Form.nodes] at ihsource ihbody ⊢
      rw [ihbody, ihsource, arrayLoops_iterator, if_neg hloops]
      omega
  | conditional _ _ ihoperands ihpass =>
      simp only [Form.nodes] at ihoperands ihpass ⊢
      rw [ihpass, ihoperands, arrayLoops_conditional, Option.getD_none, arrayLoops_nil]
      omega
  | conditionalElse _ _ _ ihoperands ihpass ihfail =>
      simp only [Form.nodes] at ihoperands ihpass ihfail ⊢
      rw [ihfail, ihpass, ihoperands, arrayLoops_conditional, Option.getD_some]
      omega
  | @values node nodes _ _ _ _ _ _ _ _ _ _ _ _ ihnode ihnodes
  | @block node nodes _ _ _ _ _ _ _ _ _ _ _ ihnode ihnodes =>
      simp only [Form.nodes] at ihnode ihnodes ⊢
      rw [ihnodes, ihnode, arrayLoops_cons node nodes, Nat.add_assoc]

end Draws

/-! ## Runs in step -/

/-- A run that began with the registry `start` and now has `r₂` is in step with a run that began
with nothing declared and now has `r₁`: the renaming takes the names of the one to those of the
other, and of the declared names those that `start` had already are not repeated. -/
structure Tracks (f : String → String) (start r₁ r₂ : Registry) : Prop where
  drawn : r₂.drawn = start.drawn ++ r₁.drawn.map f
  introduced : r₂.introduced =
    start.introduced ++ (r₁.introduced.map f).filter (· ∉ start.introduced)
  reserved : r₂.reserved = start.reserved
  kept : ∀ name ∈ r₁.introduced, name ∈ r₁.drawn ∨ f name = name
  sound : r₂.Sound

section Tracks

variable {o : Options} {width : Nat} {f : String → String} {start r₁ r₂ : Registry}

theorem tracks_start (hdrawn : r₁.drawn = []) (hintroduced : r₁.introduced = [])
    (hsound : start.Sound) : Tracks f start r₁ start := by
  constructor
  · simp [hdrawn]
  · simp [hintroduced]
  · rfl
  · simp [hintroduced]
  · exact hsound

/-- A reserved name is declared in the one run exactly if it is in the other. -/
theorem Tracks.mem_introduced_iff (h : Tracks f start r₁ r₂) {name : String}
    (hname : f name = name) (hreserved : name ∈ start.reserved) :
    name ∈ r₂.introduced ↔ name ∈ start.introduced ∨ name ∈ r₁.introduced := by
  have hmap : name ∈ r₁.introduced.map f ↔ name ∈ r₁.introduced := by
    constructor
    · intro hmem
      obtain ⟨other, hother, rfl⟩ := List.mem_map.1 hmem
      rcases h.kept other hother with hdrawn | hkept
      · -- a temporary of the second run is not reserved
        have hmem : f other ∈ r₂.drawn := by
          rw [h.drawn]
          exact List.mem_append_right _ (List.mem_map_of_mem hdrawn)
        have hfree := h.sound.not_mem_reserved _ hmem
        rw [h.reserved] at hfree
        exact absurd hreserved hfree
      · rwa [hkept]
    · intro hmem
      exact List.mem_map.2 ⟨name, hmem, hname⟩
  rw [h.introduced, List.mem_append, List.mem_filter, hmap, decide_eq_true_eq]
  grind

theorem Tracks.introduce (h : Tracks f start r₁ r₂) {name : String} (hname : f name = name)
    (hreserved : name ∈ start.reserved) :
    Tracks f start (r₁.introduce name) (r₂.introduce name) := by
  have hmem := h.mem_introduced_iff hname hreserved
  constructor
  · simpa using h.drawn
  · by_cases h₁ : name ∈ r₁.introduced
    · have h₂ : name ∈ r₂.introduced := hmem.2 (.inr h₁)
      simpa [Registry.introduce, h₁, h₂] using h.introduced
    · by_cases h₀ : name ∈ start.introduced
      · have h₂ : name ∈ r₂.introduced := hmem.2 (.inl h₀)
        simpa [Registry.introduce, h₁, h₂, hname, h₀] using h.introduced
      · have h₂ : name ∉ r₂.introduced := fun h₂ => (hmem.1 h₂).elim h₀ h₁
        rw [Registry.introduce, if_neg h₂, Registry.introduce, if_neg h₁]
        simp [h.introduced, hname, h₀]
  · simpa using h.reserved
  · intro other hother
    rw [Registry.drawn_introduce]
    rcases Registry.mem_introduced_introduce.1 hother with hold | rfl
    · exact h.kept other hold
    · exact .inr hname
  · exact h.sound.introduce name

theorem Tracks.bind (h : Tracks f start r₁ r₂) {name : String} (hname : f name = name)
    (hreserved : Name.root name ∈ start.reserved) :
    Tracks f start (r₁.bind name) (r₂.bind name) := by
  unfold Registry.bind
  split
  · exact h
  · rename_i hdot
    rw [Name.root_eq_self (by simpa using hdot)] at hreserved
    exact h.introduce hname hreserved

theorem Tracks.define (h : Tracks f start r₁ r₂) {name : String} {params : List String}
    (hnames : ∀ other ∈ name :: params, f other = other ∧ other ∈ start.reserved) :
    Tracks f start (r₁.define name params) (r₂.define name params) := by
  rw [List.forall_mem_cons] at hnames
  obtain ⟨hname, hparams⟩ := hnames
  have hfirst : Tracks f start (r₁.bind name) (r₂.bind name) := by
    unfold Registry.bind
    split
    · exact h
    · exact h.introduce hname.1 hname.2
  unfold Registry.define
  generalize r₁.bind name = s₁ at hfirst
  generalize r₂.bind name = s₂ at hfirst
  induction params generalizing s₁ s₂ with
  | nil => exact hfirst
  | cons param params ih =>
      rw [List.forall_mem_cons] at hparams
      exact ih hparams.2 _ _ (hfirst.introduce hparams.1.1 hparams.1.2)

theorem Tracks.draw (h : Tracks f start r₁ r₂) {name₁ : String} {r₁' r₂' : Registry}
    (h₁ : r₁.Draws name₁ r₁') (h₂ : r₂.Draws (f name₁) r₂') : Tracks f start r₁' r₂' := by
  have hnew : f name₁ ∉ start.introduced := by
    have hfree := h₂.not_mem_introduced
    rw [h.introduced, List.mem_append, not_or] at hfree
    exact hfree.1
  constructor
  · rw [h₂.drawn, h₁.drawn, h.drawn, List.map_append, List.append_assoc]
    rfl
  · simp [h₂.introduced, h₁.introduced, h.introduced, hnew]
  · rw [h₂.reserved, h.reserved]
  · intro name hname
    rw [h₁.introduced] at hname
    rw [h₁.drawn, List.mem_append]
    rcases List.mem_append.1 hname with hold | hlast
    · exact (h.kept name hold).imp_left .inl
    · exact .inl (.inr hlast)
  · exact h.sound.of_draws h₂

end Tracks

/-- The names that the nodes write have at most `width` characters, and none of them can be
drawn. -/
def Settled (width : Nat) (reserved : List String) (nodes : List Node) : Prop :=
  ∀ node ∈ Node.walkAll nodes,
    (∀ name ∈ node.written, name.length ≤ width) ∧ ∀ name ∈ node.names, name ∈ reserved

theorem settled_singleton {width : Nat} {reserved : List String} {node : Node} :
    Settled width reserved [node] ↔
      ((∀ name ∈ node.written, name.length ≤ width) ∧ ∀ name ∈ node.names, name ∈ reserved) ∧
        Settled width reserved node.children :=
  Node.forall_mem_walkAll_singleton

theorem settled_cons {width : Nat} {reserved : List String} {node : Node} {nodes : List Node} :
    Settled width reserved (node :: nodes) ↔
      Settled width reserved [node] ∧ Settled width reserved nodes :=
  Node.forall_mem_walkAll_cons

theorem settled_append {width : Nat} {reserved : List String} {nodes others : List Node} :
    Settled width reserved (nodes ++ others) ↔
      Settled width reserved nodes ∧ Settled width reserved others :=
  Node.forall_mem_walkAll_append

/-- Of a construct that writes one name the length of that name is known, and its root is
reserved. -/
theorem Settled.root {width : Nat} {reserved : List String} {node : Node} {name : String}
    (h : Settled width reserved [node]) (hwritten : node.written = [name])
    (hnames : node.names = [Name.root name]) :
    name.length ≤ width ∧ Name.root name ∈ reserved ∧ Settled width reserved node.children := by
  obtain ⟨⟨hlength, hreserved⟩, hparts⟩ := settled_singleton.1 h
  rw [hwritten, List.forall_mem_singleton] at hlength
  rw [hnames, List.forall_mem_singleton] at hreserved
  exact ⟨hlength, hreserved, hparts⟩

section Parallel

variable {o o' : Options} {form : Form} {depth : Nat} {f : String → String}
  {r₁ r₁' r₂ r₂' : Registry} {es₁ hs₁ es₂ hs₂ : List ESTree} {ws₁ ws₂ : List Warning}

/-- If the temporaries correspond after both runs have lowered the same nodes, they did before. -/
theorem aligned_of_lowers {drawn : List String} (h₁ : Lowers o form depth r₁ es₁ hs₁ ws₁ r₁')
    (h₂ : Lowers o' form depth r₂ es₂ hs₂ ws₂ r₂') (hafter : r₂'.drawn = drawn ++ r₁'.drawn.map f) :
    r₂.drawn = drawn ++ r₁.drawn.map f := by
  obtain ⟨new₁, hnew₁⟩ := drawn_prefix_of_lowers h₁
  obtain ⟨new₂, hnew₂⟩ := drawn_prefix_of_lowers h₂
  have hlength₁ := length_drawn_of_lowers h₁
  have hlength₂ := length_drawn_of_lowers h₂
  rw [← hnew₁, List.length_append] at hlength₁
  rw [← hnew₂, List.length_append] at hlength₂
  have heq : r₂.drawn ++ new₂ = (drawn ++ r₁.drawn.map f) ++ new₁.map f := by
    rw [hnew₂, hafter, ← hnew₁, List.map_append, List.append_assoc]
  apply List.append_inj_left' heq
  rw [List.length_map]
  omega

structure InStep (f : String → String) (start : Registry) (es₁ hs₁ : List ESTree)
    (ws₁ : List Warning) (r₁ : Registry) (es₂ hs₂ : List ESTree) (ws₂ : List Warning)
    (r₂ : Registry) : Prop where
  output : es₂ = es₁.map (rename f)
  hoisted : hs₂ = hs₁.map (rename f)
  warnings : ws₂ = ws₁
  registry : Tracks f start r₁ r₂

/-- Two runs stay in step if the renaming takes the temporaries of the one to those of the
other. -/
theorem inStep_of_lowers {width : Nat} {start : Registry} {strategy : Strategy}
    (hf : Keeps o width f) (h₁ : Lowers o form depth r₁ es₁ hs₁ ws₁ r₁')
    (h₂ : Lowers { o with temporaries := strategy } form depth r₂ es₂ hs₂ ws₂ r₂')
    (hnodes : Settled width start.reserved form.nodes) (htracks : Tracks f start r₁ r₂)
    (hafter : r₂'.drawn = start.drawn ++ r₁'.drawn.map f) :
    InStep f start es₁ hs₁ ws₁ r₁' es₂ hs₂ ws₂ r₂' := by
  induction h₁ generalizing r₂ es₂ hs₂ ws₂ r₂' with
  | identifier =>
      cases h₂
      obtain ⟨hname, -, -⟩ := hnodes.root rfl rfl
      exact ⟨by simp [hf.rename_path hname], rfl, rfl, htracks⟩
  | integer | float | string =>
      cases h₂
      exact ⟨by simp, rfl, rfl, htracks⟩
  | array _ ih =>
      cases h₂ with
      | array helements =>
          have hparts := (settled_singleton.1 hnodes).2
          obtain ⟨rfl, rfl, rfl, hafter⟩ := ih helements hparts htracks hafter
          exact ⟨by simp [rename], rfl, rfl, hafter⟩
  | assignment _ ih =>
      cases h₂ with
      | assignment hvalue =>
          obtain ⟨hname, hroot, hparts⟩ := hnodes.root rfl rfl
          rw [Registry.drawn_bind, Registry.drawn_bind] at hafter
          obtain ⟨hinit, rfl, rfl, hafterValue⟩ := ih hvalue hparts htracks hafter
          cases hinit
          exact ⟨by simp [hf.rename_bound hname], rfl, rfl,
            hafterValue.bind (hf.short _ hname) hroot⟩
  | create =>
      cases h₂
      obtain ⟨hname, hroot, -⟩ := hnodes.root rfl rfl
      exact ⟨by simp [hf.rename_bound hname, rename], rfl, rfl,
        htracks.bind (hf.short _ hname) hroot⟩
  | get _ ih =>
      cases h₂ with
      | get hkey =>
          obtain ⟨hname, -, hparts⟩ := hnodes.root rfl rfl
          obtain ⟨hk, rfl, rfl, hafter⟩ := ih hkey hparts htracks hafter
          cases hk
          exact ⟨by simp [hf.rename_path hname], rfl, rfl, hafter⟩
  | set _ ih =>
      cases h₂ with
      | set hboth =>
          obtain ⟨hname, -, hparts⟩ := hnodes.root rfl rfl
          obtain ⟨hkv, rfl, rfl, hafter⟩ := ih hboth hparts htracks hafter
          cases hkv
          exact ⟨by simp [rename, hf.rename_path hname], rfl, rfl, hafter⟩
  | useModule =>
      cases h₂
      exact ⟨by simp [hf.rename_require]; rfl, rfl, rfl, htracks⟩
  | useModuleAs =>
      cases h₂
      obtain ⟨hname, hroot, -⟩ := hnodes.root rfl rfl
      exact ⟨by simp [hf.rename_bound hname, hf.rename_require]; rfl, rfl, rfl,
        htracks.bind (hf.short _ hname) hroot⟩
  | exportName =>
      cases h₂
      obtain ⟨hname, -, -⟩ := hnodes.root rfl rfl
      exact ⟨by simp [hf.rename_exported hname]; rfl, rfl, rfl, htracks⟩
  | @function _ name params _ _ _ _ _ _ _ ih =>
      cases h₂ with
      | function hbody =>
          obtain ⟨⟨hwritten, hreserved⟩, hparts⟩ := settled_singleton.1 hnodes
          have hnames : ∀ other ∈ name :: params, f other = other ∧ other ∈ start.reserved :=
            fun other hother => ⟨hf.short other (hwritten other hother), hreserved other hother⟩
          obtain ⟨rfl, -, rfl, hafter⟩ := ih hbody hparts (htracks.define hnames) hafter
          have hparams : params.map (rename f ∘ identifier) = params.map identifier := by
            apply List.map_congr_left
            intro param hparam
            rw [Function.comp_apply, rename_identifier, (hnames param (by simp [hparam])).1]
          refine ⟨?_, rfl, rfl, hafter⟩
          simp [rename, map_rename_withResult, hparams, (hnames name (by simp)).1]
  | call _ ih =>
      cases h₂ with
      | call hargs =>
          obtain ⟨hname, -, hparts⟩ := hnodes.root rfl rfl
          obtain ⟨rfl, rfl, rfl, hafter⟩ := ih hargs hparts htracks hafter
          exact ⟨by simp [rename, hf.rename_path hname], rfl, rfl, hafter⟩
  | iteratorArray hsource₁ hfresh₁ hbody₁ ihsource ihbody =>
      have hparts := settled_cons.1 (settled_singleton.1 hnodes).2
      cases h₂ with
      | iteratorArray hsource₂ hfresh₂ hbody₂ =>
          have hdraws₁ := Registry.draws_of_fresh? hfresh₁
          have hdraws₂ := Registry.draws_of_fresh? hfresh₂
          -- the names drawn last correspond, and so do those drawn before
          have hdrawn := aligned_of_lowers hbody₁ hbody₂ hafter
          rw [hdraws₂.drawn, hdraws₁.drawn, List.map_append, ← List.append_assoc] at hdrawn
          obtain ⟨hbefore, hname⟩ := List.append_inj' hdrawn rfl
          obtain rfl := List.singleton_inj.1 hname
          obtain ⟨harray, rfl, rfl, hafterSource⟩ := ihsource hsource₂ hparts.1 htracks hbefore
          rw [List.map_singleton, List.singleton_inj, rename, arrayExpression.injEq] at harray
          obtain ⟨rfl, -, rfl, hafterBody⟩ :=
            ihbody hbody₂ hparts.2 (hafterSource.draw hdraws₁ hdraws₂) hafter
          refine ⟨?_, ?_, rfl, hafterBody⟩
          · rw [List.map_singleton, hf.rename_countingLoop, rename_identifier]
          · simp [rename, harray]
      | iterator hsource₂ harray _ =>
          have hsame := (exists_eq_arrayExpression_iff hsource₁).1 ⟨_, rfl⟩
          obtain ⟨elements, heq⟩ := (exists_eq_arrayExpression_iff hsource₂).2 hsame
          exact absurd heq (harray elements)
  | iterator hsource₁ harray₁ hbody₁ ihsource ihbody =>
      have hparts := settled_cons.1 (settled_singleton.1 hnodes).2
      cases h₂ with
      | iteratorArray hsource₂ _ _ =>
          have hsame := (exists_eq_arrayExpression_iff hsource₂).1 ⟨_, rfl⟩
          obtain ⟨elements, heq⟩ := (exists_eq_arrayExpression_iff hsource₁).2 hsame
          exact absurd heq (harray₁ elements)
      | iterator hsource₂ _ hbody₂ =>
          have hbefore := aligned_of_lowers hbody₁ hbody₂ hafter
          obtain ⟨hs, rfl, rfl, hafterSource⟩ := ihsource hsource₂ hparts.1 htracks hbefore
          cases hs
          obtain ⟨rfl, -, rfl, hafterBody⟩ := ihbody hbody₂ hparts.2 hafterSource hafter
          refine ⟨?_, rfl, rfl, hafterBody⟩
          rw [List.map_singleton, hf.rename_countingLoop]
  | conditional hoperands₁ hpass₁ ihoperands ihpass =>
      cases h₂ with
      | conditional hoperands₂ hpass₂ =>
          have hparts := (settled_singleton.1 hnodes).2
          simp only [Node.children, Option.getD_none, List.append_nil, settled_append] at hparts
          have hbefore := aligned_of_lowers hpass₁ hpass₂ hafter
          obtain ⟨hl, rfl, rfl, hafterOperands⟩ :=
            ihoperands hoperands₂ hparts.1 htracks hbefore
          cases hl
          obtain ⟨rfl, -, rfl, hafterPass⟩ := ihpass hpass₂ hparts.2 hafterOperands hafter
          refine ⟨?_, rfl, rfl, hafterPass⟩
          simp [rename, hf.rename_testOf]
  | conditionalElse hoperands₁ hpass₁ hfail₁ ihoperands ihpass ihfail =>
      cases h₂ with
      | conditionalElse hoperands₂ hpass₂ hfail₂ =>
          have hparts := (settled_singleton.1 hnodes).2
          simp only [Node.children, Option.getD_some, settled_append] at hparts
          have hbeforeFail := aligned_of_lowers hfail₁ hfail₂ hafter
          have hbefore := aligned_of_lowers hpass₁ hpass₂ hbeforeFail
          obtain ⟨hl, rfl, rfl, hafterOperands⟩ :=
            ihoperands hoperands₂ hparts.1.1 htracks hbefore
          cases hl
          obtain ⟨rfl, -, rfl, hafterPass⟩ := ihpass hpass₂ hparts.1.2 hafterOperands hbeforeFail
          obtain ⟨rfl, -, rfl, hafterFail⟩ := ihfail hfail₂ hparts.2 hafterPass hafter
          refine ⟨?_, rfl, rfl, hafterFail⟩
          simp [rename, hf.rename_testOf]
  | result _ ih =>
      cases h₂ with
      | result hvalue =>
          have hparts := (settled_singleton.1 hnodes).2
          obtain ⟨rfl, rfl, rfl, hafter⟩ := ih hvalue hparts htracks hafter
          exact ⟨by simp [rename], rfl, rfl, hafter⟩
  | arithmetic _ ih =>
      cases h₂ with
      | arithmetic hboth =>
          have hparts := (settled_singleton.1 hnodes).2
          obtain ⟨hxy, rfl, rfl, hafter⟩ := ih hboth hparts htracks hafter
          cases hxy
          exact ⟨by simp [rename], rfl, rfl, hafter⟩
  | noValues | emptyBlock =>
      cases h₂
      exact ⟨rfl, rfl, rfl, htracks⟩
  | values _ hnodes₁ ihnode ihnodes =>
      cases h₂ with
      | values hnode₂ hnodes₂ =>
          obtain ⟨hfirst, hothers⟩ := settled_cons.1 hnodes
          have hbefore := aligned_of_lowers hnodes₁ hnodes₂ hafter
          obtain ⟨he, rfl, rfl, hafterNode⟩ := ihnode hnode₂ hfirst htracks hbefore
          cases he
          obtain ⟨rfl, rfl, rfl, hafterNodes⟩ := ihnodes hnodes₂ hothers hafterNode hafter
          exact ⟨rfl, by simp, rfl, hafterNodes⟩
  | block _ hnodes₁ ihnode ihnodes =>
      cases h₂ with
      | block hnode₂ hnodes₂ =>
          obtain ⟨hfirst, hothers⟩ := settled_cons.1 hnodes
          have hbefore := aligned_of_lowers hnodes₁ hnodes₂ hafter
          obtain ⟨he, rfl, rfl, hafterNode⟩ := ihnode hnode₂ hfirst htracks hbefore
          cases he
          obtain ⟨rfl, -, rfl, hafterNodes⟩ := ihnodes hnodes₂ hothers hafterNode hafter
          exact ⟨by simp, rfl, rfl, hafterNodes⟩

end Parallel

end LijsCompiler.Lowering
