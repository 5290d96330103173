import LijsCompiler.Lowering
import LijsCompiler.Proofs.Node.Children

/-!
# Properties of lowering, step by step

Lowering is put together from a few single steps.  A property that these have, and that is kept when
one step follows another, is a property of the lowering of every node (`Stepwise.lowerNode`).
-/

namespace LijsCompiler.Lowering

/-- What the single steps of lowering have, and keep when one follows another.  Apart from `fresh`
and `introduce` no step looks at the registry or changes it. -/
structure Stepwise (P : ∀ {α : Type}, Lower α → Prop) : Prop where
  pure {α : Type} (a : α) : P (pure a)
  bind {α β : Type} {step : Lower α} {next : α → Lower β} (hstep : P step)
    (hnext : ∀ a, P (next a)) : P (step >>= next)
  get_bind {α : Type} {next : Context → Lower α}
    (hsame : ∀ c registry, next { c with registry } = next c) (hnext : ∀ c, P (next c)) :
    P (get >>= next)
  modify {f : Context → Context}
    (hsame : ∀ c registry, f { c with registry } = { f c with registry }) : P (modify f)
  takeHoisted : P takeHoisted
  introduce (name : String) : P (introduce name)
  fresh : P fresh

namespace Stepwise

variable {P : ∀ {α : Type}, Lower α → Prop} (hP : Stepwise P)

include hP

/-! ## Steps -/

theorem expectStatement (kind : NodeKind) (place : Place) : P (place.expectStatement kind) := by
  cases place with
  | statement => exact hP.pure ()
  | value => exact hP.modify fun _ _ => rfl

theorem bindName (name : String) (init : ESTree) : P (bindName name init) := by
  unfold Lowering.bindName
  split
  · exact hP.pure _
  · exact hP.bind (hP.introduce name) fun _ => hP.pure _

theorem loopSource (source : ESTree) : P (loopSource source) := by
  unfold Lowering.loopSource
  split
  · refine hP.bind hP.fresh fun name => ?_
    exact hP.bind (hP.modify fun _ _ => rfl) fun _ => hP.pure _
  · exact hP.pure _

theorem withOwnBuffer {α : Type} {step : Lower α} (hstep : P step) : P (withOwnBuffer step) := by
  refine hP.bind hP.takeHoisted fun _ => ?_
  refine hP.bind hstep fun a => ?_
  exact hP.bind (hP.modify fun _ _ => rfl) fun _ => hP.pure a

theorem deeper {α : Type} {step : Lower α} (hstep : P step) : P (deeper step) := by
  refine hP.bind (hP.modify fun _ _ => rfl) fun _ => ?_
  refine hP.bind hstep fun a => ?_
  exact hP.bind (hP.modify fun _ _ => rfl) fun _ => hP.pure a

theorem forM_introduce (names : List String) : P (names.forM Lowering.introduce) := by
  induction names with
  | nil => exact hP.pure _
  | cons name names ih => exact hP.bind (hP.introduce name) fun _ => ih

theorem define_bind {α : Type} (name : String) (params : List String) {next : Lower α}
    (hnext : P next) :
    P (do
      if !Name.isDotted name then Lowering.introduce name
      params.forM Lowering.introduce
      next : Lower α) := by
  have hparams : P (params.forM Lowering.introduce >>= fun _ => next) :=
    hP.bind (hP.forM_introduce params) fun _ => hnext
  by_cases hdot : Name.isDotted name
  · simp only [hdot, Bool.not_true, Bool.false_eq_true, if_false]
    exact hparams
  · simp only [hdot, Bool.not_false, if_true]
    exact hP.bind (hP.introduce name) fun _ => hparams

/-! ## Nodes -/

variable {o : Options}

theorem lowerValues_of_nodes {nodes : List Node}
    (h : ∀ node ∈ nodes, ∀ place, P (lowerNode o place node)) : P (lowerValues o nodes) := by
  induction nodes with
  | nil => exact hP.pure _
  | cons node nodes ih =>
      rw [Lowering.lowerValues]
      refine hP.bind (h node (by simp) .value) fun value => ?_
      refine hP.bind (ih fun m hm => h m (by simp [hm])) fun values => ?_
      exact hP.pure _

theorem lowerOption_of_nodes {value : Option Node}
    (h : ∀ node ∈ value, ∀ place, P (lowerNode o place node)) : P (lowerOption o value) := by
  cases value with
  | none => exact hP.pure _
  | some node => exact hP.bind (h node rfl .value) fun _ => hP.pure _

theorem lowerStatements_of_nodes {nodes : List Node}
    (h : ∀ node ∈ nodes, ∀ place, P (lowerNode o place node)) : P (lowerStatements o nodes) := by
  induction nodes with
  | nil => exact hP.pure _
  | cons node nodes ih =>
      rw [Lowering.lowerStatements]
      refine hP.bind (h node (by simp) .statement) fun statement => ?_
      refine hP.bind hP.takeHoisted fun declarations => ?_
      refine hP.bind (ih fun m hm => h m (by simp [hm])) fun statements => ?_
      exact hP.pure _

theorem lowerBranch_of_nodes {nodes : Option (List Node)}
    (h : ∀ node ∈ nodes.getD [], ∀ place, P (lowerNode o place node)) :
    P (lowerBranch o nodes) := by
  cases nodes with
  | none => exact hP.pure _
  | some nodes =>
      rw [lowerBranch]
      refine hP.bind (hP.withOwnBuffer (hP.lowerStatements_of_nodes h)) fun statements => ?_
      exact hP.pure _

theorem lowerNode_of_children (node : Node)
    (ih : ∀ child ∈ node.children, ∀ place, P (lowerNode o place child)) (place : Place) :
    P (lowerNode o place node) := by
  cases node with
  | identifier name | integer text | float text | string text | exportName name =>
      rw [Lowering.lowerNode]
      exact hP.pure _
  | array elements | call name elements =>
      rw [Lowering.lowerNode]
      exact hP.bind (hP.lowerValues_of_nodes ih) fun _ => hP.pure _
  | assignment name value =>
      rw [Lowering.lowerNode]
      refine hP.bind (hP.expectStatement _ _) fun _ => ?_
      refine hP.bind (ih value (by simp [Node.children]) .value) fun init => ?_
      exact hP.bindName name init
  | create name =>
      rw [Lowering.lowerNode]
      exact hP.bind (hP.expectStatement _ _) fun _ => hP.bindName _ _
  | get name key =>
      rw [Lowering.lowerNode]
      exact hP.bind (ih key (by simp [Node.children]) .value) fun _ => hP.pure _
  | set name first second | arithmetic name first second =>
      rw [Lowering.lowerNode]
      refine hP.bind (ih first (by simp [Node.children]) .value) fun x => ?_
      exact hP.bind (ih second (by simp [Node.children]) .value) fun y => hP.pure _
  | useModule path binding =>
      cases binding with
      | none =>
          rw [Lowering.lowerNode]
          exact hP.pure _
      | some name =>
          rw [Lowering.lowerNode]
          exact hP.bind (hP.expectStatement _ _) fun _ => hP.bindName _ _
  | function name params body =>
      rw [Lowering.lowerNode]
      refine hP.bind (hP.expectStatement _ _) fun _ => ?_
      apply hP.define_bind
      exact hP.bind (hP.withOwnBuffer (hP.lowerStatements_of_nodes ih)) fun _ => hP.pure _
  | iterator source body =>
      rw [Lowering.lowerNode]
      refine hP.bind (hP.expectStatement _ _) fun _ => ?_
      refine hP.bind (ih source (by simp [Node.children]) .value) fun s => ?_
      refine hP.bind (hP.loopSource s) fun s => ?_
      -- of the context only the depth of loops is read
      refine hP.get_bind (fun _ _ => rfl) fun c => ?_
      have hbody : P (lowerStatements o body) :=
        hP.lowerStatements_of_nodes fun m hm => ih m (by simp [Node.children, hm])
      exact hP.bind (hP.deeper (hP.withOwnBuffer hbody)) fun _ => hP.pure _
  | conditional check left right pass fail =>
      rw [Lowering.lowerNode]
      have hright : P (lowerOption o right) :=
        hP.lowerOption_of_nodes fun m hm => ih m (by simp_all [Node.children])
      have hpass : P (lowerStatements o pass) :=
        hP.lowerStatements_of_nodes fun m hm => ih m (by simp [Node.children, hm])
      have hfail : P (lowerBranch o fail) :=
        hP.lowerBranch_of_nodes fun m hm => ih m (by simp [Node.children, hm])
      refine hP.bind (hP.expectStatement _ _) fun _ => ?_
      refine hP.bind (ih left (by simp [Node.children]) .value) fun l => ?_
      refine hP.bind hright fun r => ?_
      refine hP.bind (hP.withOwnBuffer hpass) fun ps => ?_
      exact hP.bind hfail fun _ => hP.pure _
  | result value =>
      rw [Lowering.lowerNode]
      refine hP.bind (hP.expectStatement _ _) fun _ => ?_
      have hvalue : P (lowerOption o value) :=
        hP.lowerOption_of_nodes fun m hm => ih m (by simp_all [Node.children])
      exact hP.bind hvalue fun _ => hP.pure _

theorem lowerNode (o : Options) (node : Node) : ∀ place, P (lowerNode o place node) := by
  induction node using Node.children_induction with
  | step node ih => exact hP.lowerNode_of_children node ih

theorem lowerValues (o : Options) (nodes : List Node) : P (lowerValues o nodes) :=
  hP.lowerValues_of_nodes fun node _ => hP.lowerNode o node

theorem lowerBlock (o : Options) (nodes : List Node) :
    P (Lowering.withOwnBuffer (lowerStatements o nodes)) :=
  hP.withOwnBuffer (hP.lowerStatements_of_nodes fun node _ => hP.lowerNode o node)

end Stepwise

end LijsCompiler.Lowering
