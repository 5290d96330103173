import LijsCompiler.Proofs.Lowering.Misplaced
import LijsCompiler.Proofs.Lowering.Shape
import LijsCompiler.Proofs.Node.WellFormed

/-!
# What stands in the slots of the output

What a node in a value position becomes is put into a slot that wants an expression, and nothing on
the way to the output takes it out again.  All else that lowering puts into such slots is an
expression.  So if every expression fits into a slot, the slots of the output hold what fits exactly
if all nodes in value positions become what fits (`accepts_iff_valuesAvoid`).
-/

namespace LijsCompiler

open ESTree

namespace Lowering

def Place.Accepts (Fits : ESTree → Prop) : Place → ESTree → Prop
  | .statement => IsClean Fits
  | .value => IsValue Fits

@[simp] theorem accepts_statement {Fits : ESTree → Prop} {e : ESTree} :
    Place.statement.Accepts Fits e ↔ IsClean Fits e := Iff.rfl

@[simp] theorem accepts_value {Fits : ESTree → Prop} {e : ESTree} :
    Place.value.Accepts Fits e ↔ IsValue Fits e := Iff.rfl

theorem accepts_iff {Fits : ESTree → Prop} {place : Place} {e : ESTree} :
    place.Accepts Fits e ↔ (place = .value → Fits e) ∧ IsClean Fits e := by
  cases place <;> simp [IsValue]

/-! ## The trees that the rules build -/

section Trees

variable {Fits : ESTree → Prop}

theorem isClean_blockStatement {body : List ESTree} :
    IsClean Fits (blockStatement body) ↔ ∀ s ∈ body, IsClean Fits s := by
  rw [isClean_iff]
  simp [expressionSlots, parts]

theorem isClean_ifStatement {test : ESTree} {pass : List ESTree} {fail : Option ESTree} :
    IsClean Fits (ifStatement test (blockStatement pass) fail) ↔
      IsValue Fits test ∧ (∀ s ∈ pass, IsClean Fits s) ∧ ∀ e ∈ fail, IsClean Fits e := by
  rw [isClean_iff]
  simp [expressionSlots, parts, isClean_blockStatement, IsValue, and_assoc]

/-- A value that is all of a list is as clean as the list. -/
theorem isClean_returnStatement {values : List ESTree} (hlength : values.length ≤ 1) :
    IsClean Fits (returnStatement values.head?) ↔ ∀ e ∈ values, IsValue Fits e := by
  rw [isClean_iff_of_slots rfl]
  rcases values with _ | ⟨value, _ | ⟨other, others⟩⟩
  · simp [parts]
  · simp [parts]
  · simp at hlength

variable (hfits : ∀ e, e.isExpression → Fits e)
include hfits

theorem isClean_embed {place : Place} {e : ESTree} (he : e.isExpression) :
    IsClean Fits (place.embed e) ↔ IsClean Fits e := by
  cases place with
  | statement =>
      change IsClean Fits (expressionStatement e) ↔ _
      rw [isClean_iff_of_slots rfl]
      simp [parts, IsValue, hfits e he]
  | value => rfl

theorem isClean_embed_of_slots {place : Place} {e : ESTree} (he : e.isExpression)
    (h : e.expressionSlots = e.parts) :
    IsClean Fits (place.embed e) ↔ ∀ part ∈ e.parts, IsValue Fits part :=
  (isClean_embed hfits he).trans (isClean_iff_of_slots h)

theorem isClean_declare {name : String} {init : ESTree} :
    IsClean Fits (declare name init) ↔ IsValue Fits init := by
  rw [declare, isClean_iff_of_slots rfl]
  simp [parts, declaratorParts, isValue_identifier hfits]

theorem isClean_bound {name : String} {init : ESTree} :
    IsClean Fits (bound name init) ↔ IsValue Fits init := by
  unfold bound
  split
  · have hassign : IsValue Fits (assignmentExpression (path name) init) ↔ IsValue Fits init := by
      rw [isValue_iff_of_slots hfits rfl rfl]
      simp [parts, isValue_path hfits]
    rw [isClean_iff_of_slots rfl]
    simpa [parts] using hassign
  · exact isClean_declare hfits

theorem isValue_require (o : Options) (text : String) : IsValue Fits (require o text) := by
  rw [require, isValue_iff_of_slots hfits rfl rfl]
  simp [parts, isValue_path hfits, ESTree.string, isValue_literal hfits]

theorem isValue_exported (o : Options) (name : String) : IsValue Fits (exported o name) := by
  rw [exported, isValue_iff_of_slots hfits rfl rfl]
  simp [parts, isValue_path hfits, isValue_member hfits]

theorem isValue_empty : IsValue Fits (objectExpression []) :=
  (isValue_iff_of_slots hfits rfl rfl).2 (by simp [parts])

theorem isClean_countingLoop {source : ESTree} {i : String} {body : List ESTree} :
    IsClean Fits (countingLoop source i body) ↔
      IsValue Fits source ∧ ∀ s ∈ body, IsClean Fits s := by
  have htest : IsValue Fits (binaryExpression .lessThan (identifier i) (member source "length")) ↔
      IsValue Fits source := by
    rw [isValue_iff_of_slots hfits rfl rfl]
    simp [parts, isValue_identifier hfits, isValue_member hfits]
  have hitem : IsClean Fits (declare itemName (index source (identifier i))) ↔
      IsValue Fits source := by
    rw [isClean_declare hfits, isValue_index hfits]
    exact and_iff_left (isValue_identifier hfits i)
  have hupdate : IsValue Fits (updateExpression false (identifier i)) := by
    rw [isValue_iff_of_slots hfits rfl rfl]
    simp [parts, isValue_identifier hfits]
  have hinit : IsClean Fits (declare i (number (.zero false) "0")) :=
    (isClean_declare hfits).2 (isValue_literal hfits _ _)
  rw [countingLoop, isClean_iff]
  simp only [expressionSlots, parts, List.forall_mem_cons, isClean_blockStatement]
  unfold IsValue at htest hupdate hitem ⊢
  grind

theorem isClean_resultOf (e : ESTree) : IsClean Fits (resultOf e) ↔ IsClean Fits e := by
  unfold resultOf
  split
  · rw [isClean_iff_of_slots rfl, isClean_iff_of_slots rfl]
    simp [parts]
  · split
    · rename_i hexpression
      rw [isClean_iff_of_slots rfl]
      simp [parts, IsValue, hfits e hexpression]
    · rfl

theorem isClean_functionDeclaration {name : String} {params : List String} {body : List Node}
    {ss : List ESTree} :
    IsClean Fits (functionDeclaration (identifier name) (params.map identifier) []
        (blockStatement (withResult body ss))) ↔ ∀ s ∈ ss, IsClean Fits s := by
  rw [isClean_iff, ← forall_mem_withResult (isClean_resultOf hfits) body ss]
  simp [expressionSlots, parts, isClean_blockStatement, isClean_identifier, or_imp, forall_and]

/-- The test of a condition is a value exactly if its operands are, as long as none is left out. -/
theorem isValue_testOf {check : Check} {l : ESTree} {rs : List ESTree}
    (hlength : rs.length = if check = .present then 0 else 1) :
    IsValue Fits (testOf check l rs.head?) ↔ ∀ e ∈ l :: rs, IsValue Fits e := by
  have hcontains (x : ESTree) :
      IsValue Fits (unaryExpression true (callExpression (member l "indexOf") [x])) ↔
        IsValue Fits l ∧ IsValue Fits x := by
    have hcall : IsValue Fits (callExpression (member l "indexOf") [x]) ↔
        IsValue Fits l ∧ IsValue Fits x := by
      rw [isValue_iff_of_slots hfits rfl rfl]
      simp [parts, isValue_member hfits]
    rw [isValue_iff_of_slots hfits rfl rfl]
    simp [parts, hcall]
  have hcompare (op : BinaryOperator) (x : ESTree) :
      IsValue Fits (binaryExpression op l x) ↔ IsValue Fits l ∧ IsValue Fits x := by
    rw [isValue_iff_of_slots hfits rfl rfl]
    simp [parts]
  rcases rs with _ | ⟨x, _ | ⟨y, others⟩⟩
  · cases check <;> simp [testOf]
  · cases check with
    | equal | similar => simp [testOf, hcompare]
    | contains => simp [testOf, hcontains]
    | present => simp at hlength
  · cases check <;> simp at hlength

end Trees

/-! ## Nodes in value positions -/

section ValuesAvoid

variable {Offends : Node → Prop}

/-- No node in a value position offends, of those that are given and those below them. -/
def ValuesAvoid (Offends : Node → Prop) (occurrences : List Occurrence) : Prop :=
  ∀ occurrence ∈ occurrences.flatMap Occurrence.walk,
    occurrence.place = .value → ¬ Offends occurrence.node

theorem valuesAvoid_nil : ValuesAvoid Offends [] := by
  simp [ValuesAvoid]

theorem valuesAvoid_append {occurrences others : List Occurrence} :
    ValuesAvoid Offends (occurrences ++ others) ↔
      ValuesAvoid Offends occurrences ∧ ValuesAvoid Offends others := by
  unfold ValuesAvoid
  rw [List.flatMap_append, List.forall_mem_append]

theorem valuesAvoid_cons {occurrence : Occurrence} {others : List Occurrence} :
    ValuesAvoid Offends (occurrence :: others) ↔
      ValuesAvoid Offends [occurrence] ∧ ValuesAvoid Offends others :=
  @valuesAvoid_append Offends [occurrence] others

theorem valuesAvoid_singleton {place : Place} {node : Node} :
    ValuesAvoid Offends [⟨place, node⟩] ↔
      (place = .value → ¬ Offends node) ∧ ValuesAvoid Offends node.placedParts := by
  unfold ValuesAvoid
  rw [List.flatMap_singleton, Occurrence.walk_eq, List.forall_mem_cons]

end ValuesAvoid

section Lowers

variable {o : Options} {form : Form} {depth : Nat} {r r' : Registry} {es hs : List ESTree}
  {ws : List Warning}

theorem length_of_lowers_values {nodes : List Node}
    (h : Lowers o (.values nodes) depth r es hs ws r') : es.length = nodes.length := by
  induction nodes generalizing r es hs ws with
  | nil =>
      cases h
      rfl
  | cons node nodes ih =>
      cases h with
      | values _ hnodes => rw [List.length_cons, List.length_cons, ih hnodes]

/-- The operands of a well-formed condition are as many as its check compares. -/
theorem length_operands_of_lowers {check : Check} {left : Node} {right : Option Node} {l : ESTree}
    {rs : List ESTree} (hright : right.isSome = (check != .present))
    (h : Lowers o (.values (left :: right.toList)) depth r (l :: rs) hs ws r') :
    rs.length = if check = .present then 0 else 1 := by
  have hlength := length_of_lowers_values h
  cases right with
  | none =>
      obtain rfl : check = .present := by simpa using hright
      simpa using hlength
  | some node =>
      have hcheck : check ≠ .present := by simpa using hright
      simpa [hcheck] using hlength

theorem wellFormed_children {node : Node} (h : Node.WellFormed [node]) :
    Node.WellFormed node.children :=
  (Node.wellFormed_singleton.1 h).2

theorem wellFormed_conditional {check : Check} {left : Node} {right : Option Node}
    {pass : List Node} {fail : Option (List Node)}
    (h : Node.WellFormed [.conditional check left right pass fail]) :
    right.isSome = (check != .present) ∧ Node.WellFormed (left :: right.toList) ∧
      Node.WellFormed pass ∧ Node.WellFormed (fail.getD []) := by
  obtain ⟨hhere, hchildren⟩ := Node.wellFormed_singleton.1 h
  rw [Node.children, Node.wellFormed_append, Node.wellFormed_append] at hchildren
  exact ⟨by simpa [Node.wellFormedHere] using hhere, hchildren.1.1, hchildren.1.2, hchildren.2⟩

/-- A rule that turns each node in a value position into what fits exactly if the node does not
offend. -/
def Separates (o : Options) (Fits : ESTree → Prop) (Offends : Node → Prop) : Prop :=
  ∀ node depth r e hs ws r', Lowers o (.node .value node) depth r [e] hs ws r' →
    (Fits e ↔ ¬ Offends node)

variable {Fits : ESTree → Prop} {Offends : Node → Prop}

theorem isValue_testOf_of_lowers (hfits : ∀ e, e.isExpression → Fits e) {check : Check}
    {left : Node} {right : Option Node} {l : ESTree} {rs : List ESTree}
    (hright : right.isSome = (check != .present))
    (h : Lowers o (.values (left :: right.toList)) depth r (l :: rs) hs ws r') :
    IsValue Fits (testOf check l rs.head?) ↔ ∀ e ∈ l :: rs, IsValue Fits e :=
  isValue_testOf hfits (length_operands_of_lowers hright h)

/-- For a single node it is left to show that its parts decide. -/
theorem accepts_iff_valuesAvoid_of_parts (hseparates : Separates o Fits Offends) {place : Place}
    {node : Node} {e : ESTree} (h : Lowers o (.node place node) depth r [e] hs ws r')
    (hparts : (∀ x ∈ hs, IsClean Fits x) ∧ IsClean Fits e ↔ ValuesAvoid Offends node.placedParts) :
    ((∀ x ∈ hs, IsClean Fits x) ∧ ∀ x ∈ [e], place.Accepts Fits x) ↔
      ValuesAvoid Offends (Form.node place node).occurrences := by
  have hhere : (place = .value → Fits e) ↔ (place = .value → ¬ Offends node) := by
    constructor
    · rintro hfit rfl
      exact (hseparates _ _ _ _ _ _ _ h).1 (hfit rfl)
    · rintro hnot rfl
      exact (hseparates _ _ _ _ _ _ _ h).2 (hnot rfl)
  rw [occurrences_node, valuesAvoid_singleton, ← hparts, List.forall_mem_singleton, accepts_iff,
    hhere, and_left_comm]

/-- All that comes of a form is right for its place exactly if no node in a value position
offends. -/
theorem accepts_iff_valuesAvoid (hfits : ∀ e, e.isExpression → Fits e)
    (hseparates : Separates o Fits Offends) (h : Lowers o form depth r es hs ws r')
    (hwf : Node.WellFormed form.nodes) :
    ((∀ e ∈ hs, IsClean Fits e) ∧ ∀ e ∈ es, form.place.Accepts Fits e) ↔
      ValuesAvoid Offends form.occurrences := by
  induction h with
  | @identifier place name depth r =>
      refine accepts_iff_valuesAvoid_of_parts hseparates
        (@Lowers.identifier o place name depth r) ?_
      simp [Node.placedParts, valuesAvoid_nil, (isValue_path hfits _).2]
  | @integer place text depth r =>
      refine accepts_iff_valuesAvoid_of_parts hseparates (@Lowers.integer o place text depth r) ?_
      simp [Node.placedParts, valuesAvoid_nil, numberLiteral, number, isClean_literal]
  | @float place text depth r =>
      refine accepts_iff_valuesAvoid_of_parts hseparates (@Lowers.float o place text depth r) ?_
      simp [Node.placedParts, valuesAvoid_nil, numberLiteral, number, isClean_literal]
  | @string place text depth r =>
      refine accepts_iff_valuesAvoid_of_parts hseparates (@Lowers.string o place text depth r) ?_
      simp [Node.placedParts, valuesAvoid_nil, ESTree.string, isClean_literal]
  | @useModule place text depth r =>
      refine accepts_iff_valuesAvoid_of_parts hseparates (@Lowers.useModule o place text depth r) ?_
      rw [isClean_embed hfits rfl]
      simp [Node.placedParts, valuesAvoid_nil, (isValue_require hfits _ _).2]
  | @useModuleAs place text binding depth r =>
      refine accepts_iff_valuesAvoid_of_parts hseparates
        (@Lowers.useModuleAs o place text binding depth r) ?_
      simp [Node.placedParts, valuesAvoid_nil, isClean_bound hfits, isValue_require hfits]
  | @exportName place name depth r =>
      refine accepts_iff_valuesAvoid_of_parts hseparates
        (@Lowers.exportName o place name depth r) ?_
      rw [isClean_embed hfits rfl]
      simp [Node.placedParts, valuesAvoid_nil, (isValue_exported hfits _ _).2]
  | @create place name depth r =>
      refine accepts_iff_valuesAvoid_of_parts hseparates (@Lowers.create o place name depth r) ?_
      simp [Node.placedParts, valuesAvoid_nil, isClean_bound hfits, isValue_empty hfits]
  | array helements ih =>
      refine accepts_iff_valuesAvoid_of_parts hseparates (.array helements) ?_
      rw [isClean_embed_of_slots hfits rfl rfl]
      simpa [Form.place, Node.placedParts, parts] using ih (wellFormed_children hwf)
  | call hargs ih =>
      refine accepts_iff_valuesAvoid_of_parts hseparates (.call hargs) ?_
      rw [isClean_embed_of_slots hfits rfl rfl]
      simpa [Form.place, Node.placedParts, parts, isValue_path hfits]
        using ih (wellFormed_children hwf)
  | get hkey ih =>
      refine accepts_iff_valuesAvoid_of_parts hseparates (.get hkey) ?_
      rw [isClean_embed_of_slots hfits rfl rfl]
      simpa [Form.place, Node.placedParts, parts, isValue_path hfits, index]
        using ih (wellFormed_children hwf)
  | set hparts ih =>
      refine accepts_iff_valuesAvoid_of_parts hseparates (.set hparts) ?_
      rw [isClean_embed_of_slots hfits rfl rfl]
      simpa [Form.place, Node.placedParts, parts, isValue_path hfits, isValue_index hfits]
        using ih (wellFormed_children hwf)
  | arithmetic hparts ih =>
      refine accepts_iff_valuesAvoid_of_parts hseparates (.arithmetic hparts) ?_
      rw [isClean_embed_of_slots hfits rfl rfl]
      simpa [Form.place, Node.placedParts, parts] using ih (wellFormed_children hwf)
  | assignment hvalue ih =>
      refine accepts_iff_valuesAvoid_of_parts hseparates (.assignment hvalue) ?_
      rw [isClean_bound hfits]
      simpa [Form.place, Node.placedParts] using ih (wellFormed_children hwf)
  | @result _ value _ _ _ es _ _ hvalue ih =>
      have hlength : es.length ≤ 1 := by
        rw [length_of_lowers_values hvalue]
        cases value <;> simp
      refine accepts_iff_valuesAvoid_of_parts hseparates (.result hvalue) ?_
      rw [isClean_returnStatement hlength]
      simpa [Form.place, Node.placedParts] using ih (wellFormed_children hwf)
  | function hbody ih =>
      refine accepts_iff_valuesAvoid_of_parts hseparates (.function hbody) ?_
      rw [isClean_functionDeclaration hfits]
      simpa [Form.place, Node.placedParts] using ih (wellFormed_children hwf)
  | iteratorArray hsource hfresh hbody ihsource ihbody =>
      -- the source stands in the hoisted declaration, and the loop runs over its name
      obtain ⟨hwfsource, hwfbody⟩ := Node.wellFormed_cons.1 (wellFormed_children hwf)
      refine accepts_iff_valuesAvoid_of_parts hseparates (.iteratorArray hsource hfresh hbody) ?_
      rw [Node.placedParts, valuesAvoid_cons]
      refine Iff.trans ?_ (and_congr (ihsource hwfsource) (ihbody hwfbody))
      simp only [Form.place, List.forall_mem_append, List.forall_mem_singleton, accepts_value,
        accepts_statement, isClean_declare hfits, isClean_countingLoop hfits,
        isValue_identifier hfits]
      grind
  | iterator hsource harray hbody ihsource ihbody =>
      obtain ⟨hwfsource, hwfbody⟩ := Node.wellFormed_cons.1 (wellFormed_children hwf)
      refine accepts_iff_valuesAvoid_of_parts hseparates (.iterator hsource harray hbody) ?_
      rw [Node.placedParts, valuesAvoid_cons]
      refine Iff.trans ?_ (and_congr (ihsource hwfsource) (ihbody hwfbody))
      simp only [Form.place, List.forall_mem_singleton, accepts_value, accepts_statement,
        isClean_countingLoop hfits]
      grind
  | conditional hoperands hpass ihoperands ihpass =>
      obtain ⟨hright, hwfleft, hwfpass, -⟩ := wellFormed_conditional hwf
      have htest := isValue_testOf_of_lowers hfits hright hoperands
      refine accepts_iff_valuesAvoid_of_parts hseparates (.conditional hoperands hpass) ?_
      rw [Node.placedParts, valuesAvoid_append, Option.getD_none, List.append_nil]
      refine Iff.trans ?_ (and_congr (ihoperands hwfleft) (ihpass hwfpass))
      simp only [Form.place, accepts_value, accepts_statement, isClean_ifStatement, htest]
      grind
  | conditionalElse hoperands hpass hfail ihoperands ihpass ihfail =>
      obtain ⟨hright, hwfleft, hwfpass, hwffail⟩ := wellFormed_conditional hwf
      have htest := isValue_testOf_of_lowers hfits hright hoperands
      refine accepts_iff_valuesAvoid_of_parts hseparates (.conditionalElse hoperands hpass hfail) ?_
      rw [Node.placedParts, valuesAvoid_append, Option.getD_some, List.map_append,
        valuesAvoid_append]
      refine Iff.trans ?_
        (and_congr (ihoperands hwfleft) (and_congr (ihpass hwfpass) (ihfail hwffail)))
      simp only [Form.place, accepts_value, accepts_statement, isClean_ifStatement, htest,
        Option.mem_def, Option.some.injEq, forall_eq', isClean_blockStatement]
      grind
  | noValues | emptyBlock => simp [Form.occurrences, Form.nodes, valuesAvoid_nil]
  | values _ _ ihnode ihnodes | block _ _ ihnode ihnodes =>
      obtain ⟨hnode, hnodes⟩ := Node.wellFormed_cons.1 hwf
      rw [Form.occurrences, Form.nodes, List.map_cons, valuesAvoid_cons]
      refine Iff.trans ?_ (and_congr (ihnode hnode) (ihnodes hnodes))
      simp only [Form.place, List.forall_mem_append, List.forall_mem_cons, accepts_statement]
      grind

/-- The slots of a lowered program hold what fits exactly if none of its nodes in value positions
offends. -/
theorem forall_slots_iff_of_lowerProgram (hfits : ∀ e, e.isExpression → Fits e)
    (hseparates : Separates o Fits Offends) {supply : Supply} {program : List Node}
    {lowered : Lowered} (hlower : lowerProgram o supply program = some lowered)
    (hwf : Node.WellFormed program) :
    (∀ node ∈ walkAll lowered.body, ∀ slot ∈ node.expressionSlots, Fits slot) ↔
      ∀ occurrence ∈ occurrencesIn program,
        occurrence.place = .value → ¬ Offends occurrence.node := by
  obtain ⟨r, hlowers, -, -⟩ := lowers_of_lowerProgram hlower
  have hiff := accepts_iff_valuesAvoid hfits hseparates hlowers hwf
  rw [and_iff_right (by simp), ValuesAvoid, occurrences_block, List.flatMap_map] at hiff
  rw [forall_mem_walkAll]
  exact hiff

end Lowers

end Lowering

end LijsCompiler
