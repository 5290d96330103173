import Mathlib.Data.List.Basic
import LijsCompiler.Proofs.Lowering.Totality

/-!
# The list of warnings

Lowering warns of a node when it comes to it, and it comes to the nodes of a program in the order of
the walk, once to each.  Each node of the walk is taken together with the place where it stands
(`Occurrence.walk`).  Then the warnings are those nodes that give no value and stand where one is
needed, in the order of the walk (`warnings_eq_misplaced`).
-/

namespace LijsCompiler

open Lowering

/-- Whether a construct gives no value: it declares a name or directs control. -/
def Node.givesNoValue : Node → Bool
  | assignment .. | create _ | useModule _ (some _) | function .. | iterator .. | conditional ..
  | result _ => true
  | _ => false

structure Occurrence where
  place : Place
  node : Node

/-- The parts of a construct in their places.  Elements, arguments, operands, keys, what is assigned
or stored, the source of a loop and a result are values, and the nodes of a body are statements. -/
def Node.placedParts : Node → List Occurrence
  | array elements | call _ elements => elements.map (.mk .value)
  | assignment _ value | get _ value => [⟨.value, value⟩]
  | set _ first second | arithmetic _ first second => [⟨.value, first⟩, ⟨.value, second⟩]
  | function _ _ body => body.map (.mk .statement)
  | iterator source body => ⟨.value, source⟩ :: body.map (.mk .statement)
  | conditional _ left right pass fail =>
    (left :: right.toList).map (.mk .value) ++ (pass ++ fail.getD []).map (.mk .statement)
  | result value => value.toList.map (.mk .value)
  | identifier _ | integer _ | float _ | string _ | create _ | useModule _ _ | exportName _ => []

theorem Node.map_node_placedParts (node : Node) :
    node.placedParts.map (·.node) = node.children := by
  cases node <;> simp [placedParts, children, Function.comp_def]

namespace Occurrence

def walk (o : Occurrence) : List Occurrence :=
  o :: o.node.placedParts.attach.flatMap fun part => walk part.1
termination_by sizeOf o.node
decreasing_by
  apply Node.sizeOf_lt_of_mem_children
  rw [← Node.map_node_placedParts]
  exact List.mem_map_of_mem part.2

def isMisplaced (o : Occurrence) : Bool := o.place = .value && o.node.givesNoValue

def warning (o : Occurrence) : Warning := .statementInExpression o.node.kind

theorem walk_eq (o : Occurrence) : o.walk = o :: o.node.placedParts.flatMap walk := by
  rw [walk, List.flatMap_subtype (g := walk) (by simp), List.unattach_attach]

theorem map_node_walk (place : Place) (node : Node) :
    (walk ⟨place, node⟩).map (·.node) = node.walk := by
  induction node using Node.children_induction generalizing place with
  | step node ih =>
      rw [walk_eq, Node.walk_eq, List.map_cons, List.map_flatMap, ← Node.map_node_placedParts,
        List.flatMap_map]
      refine congrArg _ (List.flatMap_congr fun part hpart => ?_)
      refine ih part.node ?_ part.place
      rw [← Node.map_node_placedParts]
      exact List.mem_map_of_mem hpart

def warnings (o : Occurrence) : List Warning := (o.walk.filter (·.isMisplaced)).map (·.warning)

/-- A node is warned of, if it must be, before its parts are. -/
theorem warnings_eq (o : Occurrence) :
    o.warnings =
      (if o.node.givesNoValue then o.place.warnings o.node.kind else []) ++
        o.node.placedParts.flatMap warnings := by
  have hparts : ((o.node.placedParts.flatMap walk).filter (·.isMisplaced)).map (·.warning) =
      o.node.placedParts.flatMap warnings := by
    rw [List.filter_flatMap, List.map_flatMap]
    rfl
  have hown : ([o].filter (·.isMisplaced)).map (·.warning) =
      if o.node.givesNoValue then o.place.warnings o.node.kind else [] := by
    obtain ⟨place, node⟩ := o
    cases place <;> cases hnode : node.givesNoValue <;>
      simp [isMisplaced, warning, Place.warnings, hnode]
  rw [warnings, walk_eq, ← List.singleton_append, List.filter_append, List.map_append, hown, hparts]

end Occurrence

namespace Lowering

def Form.occurrences (form : Form) : List Occurrence := form.nodes.map (.mk form.place)

@[simp] theorem occurrences_node (place : Place) (node : Node) :
    (Form.node place node).occurrences = [⟨place, node⟩] := rfl

@[simp] theorem occurrences_values (nodes : List Node) :
    (Form.values nodes).occurrences = nodes.map (.mk .value) := rfl

@[simp] theorem occurrences_block (nodes : List Node) :
    (Form.block nodes).occurrences = nodes.map (.mk .statement) := rfl

/-- The rules warn of a node where the walk comes to it. -/
theorem warnings_of_lowers {o : Options} {form : Form} {depth : Nat} {r r' : Registry}
    {es hs : List ESTree} {ws : List Warning} (h : Lowers o form depth r es hs ws r') :
    ws = form.occurrences.flatMap Occurrence.warnings := by
  -- one step of the walk for the node of a rule; the rules of lists take the walk apart
  have hnode (place : Place) (node : Node) :
      (Form.node place node).occurrences.flatMap Occurrence.warnings =
        (if node.givesNoValue then place.warnings node.kind else []) ++
          node.placedParts.flatMap Occurrence.warnings := by
    rw [occurrences_node, List.flatMap_singleton, Occurrence.warnings_eq]
  induction h with
  | identifier | integer | float | string | useModule | exportName | create | useModuleAs =>
      rw [hnode]
      simp [Node.givesNoValue, Node.placedParts, Node.kind]
  | array _ ih | call _ ih | get _ ih | set _ ih | arithmetic _ ih | assignment _ ih
  | result _ ih | function _ ih =>
      rw [hnode, ih]
      simp [Node.givesNoValue, Node.placedParts, Node.kind]
  | iteratorArray _ _ _ ihsource ihbody | iterator _ _ _ ihsource ihbody =>
      rw [hnode, ihsource, ihbody]
      simp [Node.givesNoValue, Node.placedParts, Node.kind]
  | conditional _ _ ihoperands ihpass =>
      rw [hnode, ihoperands, ihpass]
      simp [Node.givesNoValue, Node.placedParts, Node.kind]
  | conditionalElse _ _ _ ihoperands ihpass ihfail =>
      rw [hnode, ihoperands, ihpass, ihfail]
      simp [Node.givesNoValue, Node.placedParts, Node.kind]
  | noValues | emptyBlock => rfl
  | values _ _ ihnode ihnodes | block _ _ ihnode ihnodes =>
      rw [ihnode, ihnodes]
      simp

end Lowering

/-- The nodes of a program in their places: its own nodes are statements. -/
def occurrencesIn (program : List Node) : List Occurrence :=
  program.flatMap fun node => Occurrence.walk ⟨.statement, node⟩

theorem map_node_occurrencesIn (program : List Node) :
    (occurrencesIn program).map (·.node) = Node.walkAll program := by
  rw [occurrencesIn, List.map_flatMap, Node.walkAll_eq_flatMap]
  exact List.flatMap_congr fun node _ => Occurrence.map_node_walk .statement node

/-- The walk over a program comes to every node once, in its place.  With a counter every program is
lowered.  Whatever the options, the warnings name the constructs without a value that stand where
one is needed, each once and in the order of the walk. -/
theorem warnings_eq_misplaced (o : Options) (supply : Supply) (program : List Node) :
    (occurrencesIn program).map (·.node) = Node.walkAll program ∧
      (∀ stem, o.temporaries = .counter stem →
        ∃ lowered, lowerProgram o supply program = some lowered) ∧
      ∀ lowered, lowerProgram o supply program = some lowered →
        lowered.warnings =
          ((occurrencesIn program).filter (·.isMisplaced)).map fun occurrence =>
            .statementInExpression occurrence.node.kind := by
  refine ⟨map_node_occurrencesIn program, ?_, ?_⟩
  · intro stem hstrategy
    exact exists_lowerProgram_of_counter hstrategy supply program
  · intro lowered hlower
    obtain ⟨r, hlowers, -, -⟩ := lowers_of_lowerProgram hlower
    rw [warnings_of_lowers hlowers, occurrences_block, List.flatMap_map, occurrencesIn,
      List.filter_flatMap, List.map_flatMap]
    rfl

/-- Misplaced nodes stand in one another and in a loop; the body of the misplaced function holds a
node that is in its place. -/
theorem warnings_eq_misplaced_nested :
    ∃ lowered,
      lowerProgram {} (.ofSeed 0)
        [.call "f" [.assignment "x" (.create "y"),
            .result (some (.function "g" [] [.create "z"]))],
          .iterator (.iterator (.identifier "xs") []) [.array [.create "y"]]] = some lowered ∧
      lowered.warnings =
        [.statementInExpression .assignment, .statementInExpression .create,
          .statementInExpression .result, .statementInExpression .function,
          .statementInExpression .iterator, .statementInExpression .create] := by
  obtain ⟨-, hlowers, hwarnings⟩ := warnings_eq_misplaced {} (.ofSeed 0)
    [.call "f" [.assignment "x" (.create "y"), .result (some (.function "g" [] [.create "z"]))],
      .iterator (.iterator (.identifier "xs") []) [.array [.create "y"]]]
  obtain ⟨lowered, hlower⟩ := hlowers _ rfl
  refine ⟨lowered, hlower, ?_⟩
  rw [hwarnings lowered hlower]
  simp [occurrencesIn, Occurrence.walk_eq, Node.placedParts, Occurrence.isMisplaced,
    Node.givesNoValue, Node.kind]

end LijsCompiler
