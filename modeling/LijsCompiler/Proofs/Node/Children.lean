import LijsCompiler.Node

/-!
# Induction over the parts of a node

A property that passes from the parts of every node to the node holds of all nodes.  Proofs about
the tree use this principle, so that lists and options of parts need no induction of their own.
-/

namespace LijsCompiler.Node

theorem sizeOf_lt_of_mem_children {node child : Node} (h : child ∈ node.children) :
    sizeOf child < sizeOf node := by
  cases node with
  | array elements | call name elements | function name params elements =>
      have hlt : sizeOf child < sizeOf elements := List.sizeOf_lt_of_mem h
      simp only [array.sizeOf_spec, call.sizeOf_spec, function.sizeOf_spec]
      omega
  | assignment name value | get name value =>
      obtain rfl : child = value := List.mem_singleton.1 h
      simp only [assignment.sizeOf_spec, get.sizeOf_spec]
      omega
  | set name left right | arithmetic name left right =>
      have hor : child = left ∨ child = right := by simpa [children] using h
      simp only [set.sizeOf_spec, arithmetic.sizeOf_spec]
      rcases hor with rfl | rfl <;> omega
  | iterator source body =>
      simp only [iterator.sizeOf_spec]
      rcases List.mem_cons.1 h with rfl | hbody
      · omega
      · have hlt := List.sizeOf_lt_of_mem hbody
        omega
  | conditional check left right pass fail =>
      have hor : child = left ∨ right = some child ∨ child ∈ pass ∨ child ∈ fail.getD [] := by
        simpa [children] using h
      simp only [conditional.sizeOf_spec]
      rcases hor with rfl | rfl | hpass | hfail
      · omega
      · simp only [Option.some.sizeOf_spec]
        omega
      · have hlt := List.sizeOf_lt_of_mem hpass
        omega
      · cases fail with
        | none => simp at hfail
        | some nodes =>
            have hlt : sizeOf child < sizeOf nodes := List.sizeOf_lt_of_mem hfail
            simp only [Option.some.sizeOf_spec]
            omega
  | result value =>
      obtain rfl : value = some child := by simpa [children] using h
      simp only [result.sizeOf_spec, Option.some.sizeOf_spec]
      omega
  | _ => simp [children] at h

/-- A property of all nodes follows from its passing from parts to wholes. -/
theorem children_induction {P : Node → Prop}
    (step : ∀ node, (∀ child ∈ node.children, P child) → P node) (node : Node) : P node :=
  step node fun child _hchild => children_induction step child
termination_by sizeOf node
decreasing_by exact sizeOf_lt_of_mem_children _hchild

/-! ## The walk over a tree -/

@[simp] theorem walkAll_eq_flatMap (nodes : List Node) : walkAll nodes = nodes.flatMap walk := by
  induction nodes with
  | nil => rfl
  | cons node nodes ih => rw [walkAll, ih, List.flatMap_cons]

@[simp] theorem walkOption_eq_flatMap (value : Option Node) :
    walkOption value = value.toList.flatMap walk := by
  cases value <;> simp [walkOption]

@[simp] theorem walkBranch_eq_flatMap (nodes : Option (List Node)) :
    walkBranch nodes = (nodes.getD []).flatMap walk := by
  cases nodes <;> simp [walkBranch]

theorem walk_eq (node : Node) : node.walk = node :: node.children.flatMap walk := by
  cases node <;> simp [walk, children]

theorem walk_subset_walk {node other : Node} (h : other ∈ node.walk) :
    other.walk ⊆ node.walk := by
  induction node using children_induction with
  | step node ih =>
      rw [walk_eq node] at h
      rcases List.mem_cons.1 h with rfl | hbelow
      · exact List.Subset.refl _
      · obtain ⟨child, hchild, hother⟩ := List.mem_flatMap.1 hbelow
        intro m hm
        rw [walk_eq node]
        exact List.mem_cons_of_mem _ (List.mem_flatMap.2 ⟨child, hchild, ih child hchild hother hm⟩)

theorem walk_subset_walkAll {nodes : List Node} {other : Node} (h : other ∈ walkAll nodes) :
    other.walk ⊆ walkAll nodes := by
  rw [walkAll_eq_flatMap] at h ⊢
  obtain ⟨node, hnode, hother⟩ := List.mem_flatMap.1 h
  intro m hm
  exact List.mem_flatMap.2 ⟨node, hnode, walk_subset_walk hother hm⟩

section ForAll

variable {P : Node → Prop}

theorem forall_mem_walkAll_append {nodes others : List Node} :
    (∀ node ∈ walkAll (nodes ++ others), P node) ↔
      (∀ node ∈ walkAll nodes, P node) ∧ ∀ node ∈ walkAll others, P node := by
  rw [walkAll_eq_flatMap, List.flatMap_append, List.forall_mem_append, walkAll_eq_flatMap,
    walkAll_eq_flatMap]

theorem forall_mem_walkAll_cons {node : Node} {nodes : List Node} :
    (∀ m ∈ walkAll (node :: nodes), P m) ↔
      (∀ m ∈ walkAll [node], P m) ∧ ∀ m ∈ walkAll nodes, P m :=
  @forall_mem_walkAll_append P [node] nodes

/-- A property of all nodes of a tree is asked of the root and of the trees of its parts. -/
theorem forall_mem_walkAll_singleton {node : Node} :
    (∀ m ∈ walkAll [node], P m) ↔ P node ∧ ∀ m ∈ walkAll node.children, P m := by
  rw [walkAll_eq_flatMap, List.flatMap_singleton, walk_eq, List.forall_mem_cons,
    walkAll_eq_flatMap]

end ForAll

end LijsCompiler.Node
