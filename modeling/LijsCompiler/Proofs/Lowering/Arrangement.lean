import LijsCompiler.Proofs.Lowering.Parallel

/-!
# Statement lists without a buffer

Lowering collects the declarations of temporaries in a buffer that is emptied, filled and brought
back along the program.  Where no warning is given there is a direct account of what comes of it: a
list of statements becomes one statement for each node, in order, and in front of a loop over an
array stands the declaration of its temporary (`statementsOf`).  The temporaries are numbered in the
order of their loops in the program.
-/

namespace LijsCompiler.Lowering

open ESTree

/-! ## The direct account -/

mutual

/-- What a node becomes in a value position.  Constructs that give no value stand for nothing
here. -/
def valueOf (o : Options) : Node → ESTree
  | .identifier name => path name
  | .integer text | .float text => numberLiteral text
  | .string text => .string text
  | .array elements => arrayExpression (valuesOf o elements)
  | .get name key => index (path name) (valueOf o key)
  | .set name key value =>
    assignmentExpression (index (path name) (valueOf o key)) (valueOf o value)
  | .useModule text none => require o text
  | .exportName name => exported o name
  | .call name args => callExpression (path name) (valuesOf o args)
  | .arithmetic op left right => binaryExpression (operatorOf op) (valueOf o left) (valueOf o right)
  | .assignment .. | .create _ | .useModule _ (some _) | .function .. | .iterator ..
  | .conditional .. | .result _ => objectExpression []

def valuesOf (o : Options) : List Node → List ESTree
  | [] => []
  | node :: nodes => valueOf o node :: valuesOf o nodes

end

/-- What is declared in front of the statement of a node: the temporary of a loop over an array. -/
def hoistedBy (o : Options) (temporary : String) : Node → List ESTree
  | .iterator (.array elements) _ => [declare temporary (arrayExpression (valuesOf o elements))]
  | _ => []

/-- What a loop runs over: the temporary that holds an array, or the value as it is written. -/
def sourceOf (o : Options) (temporary : String) : Node → ESTree
  | .array _ => identifier temporary
  | source => valueOf o source

/-- The statement of the last node of a function: it gives the result unless its construct is
exempt. -/
def lastOf (node : Node) (statement : ESTree) : ESTree :=
  if node.kind ∈ NodeKind.withoutResult then statement else resultOf statement

inductive Body where
  | function
  /-- A program, a branch or a loop. -/
  | other
deriving DecidableEq

mutual

/-- The statement of a node inside `depth` loops, with the temporaries from the `k`-th on. -/
def statementOf (o : Options) (temporary : Nat → String) (depth k : Nat) : Node → ESTree
  | .identifier name => path name
  | .integer text | .float text => numberLiteral text
  | .string text => .string text
  | .assignment name value => bound name (valueOf o value)
  | .create name => bound name (objectExpression [])
  | .useModule text (some binding) => bound binding (require o text)
  | .function name params body =>
    functionDeclaration (identifier name) (params.map identifier) []
      (blockStatement (statementsOf o temporary .function depth k body))
  | .iterator source body =>
    countingLoop (sourceOf o (temporary k) source) (loopIndex depth)
      (statementsOf o temporary .other (depth + 1) (if source.kind = .array then k + 1 else k) body)
  | .conditional check left right pass fail =>
    ifStatement (testOf check (valueOf o left) (right.map (valueOf o)))
      (blockStatement (statementsOf o temporary .other depth k pass))
      (branchOf o temporary depth (k + arrayLoops pass) fail)
  | .result value => returnStatement (value.map (valueOf o))
  | node => expressionStatement (valueOf o node)

/-- The statements of nodes, each after what is declared in front of it. -/
def statementsOf (o : Options) (temporary : Nat → String) (owner : Body) (depth k : Nat) :
    List Node → List ESTree
  | [] => []
  | node :: nodes =>
    let statement := statementOf o temporary depth k node
    hoistedBy o (temporary k) node ++
      (if owner = .function ∧ nodes = [] then lastOf node statement else statement) ::
      statementsOf o temporary owner depth (k + arrayLoops [node]) nodes

def branchOf (o : Options) (temporary : Nat → String) (depth k : Nat) :
    Option (List Node) → Option ESTree
  | none => none
  | some nodes => some (blockStatement (statementsOf o temporary .other depth k nodes))

end

section Account

variable {o : Options} {temporary : Nat → String} {depth k : Nat}

/-- Statements that are no loop stand alone. -/
theorem statementsOf_singleton {node : Node} (h : ∀ source body, node ≠ .iterator source body) :
    statementsOf o temporary .other depth k [node] = [statementOf o temporary depth k node] := by
  cases node with
  | iterator source body => exact absurd rfl (h source body)
  | _ => simp [statementsOf, hoistedBy]

theorem statementsOf_cons (node : Node) (nodes : List Node) :
    statementsOf o temporary .other depth k (node :: nodes) =
      statementsOf o temporary .other depth k [node] ++
        statementsOf o temporary .other depth (k + arrayLoops [node]) nodes := by
  simp [statementsOf]

theorem statementsOf_iteratorArray (elements body : List Node) :
    statementsOf o temporary .other depth k [.iterator (.array elements) body] =
      [declare (temporary k) (valueOf o (.array elements)),
        countingLoop (identifier (temporary k)) (loopIndex depth)
          (statementsOf o temporary .other (depth + 1) (k + 1) body)] := by
  simp [statementsOf, statementOf, hoistedBy, sourceOf, valueOf, Node.kind]

theorem statementsOf_iterator {source : Node} (h : ∀ elements, source ≠ .array elements)
    (body : List Node) :
    statementsOf o temporary .other depth k [.iterator source body] =
      [countingLoop (valueOf o source) (loopIndex depth)
        (statementsOf o temporary .other (depth + 1) k body)] := by
  cases source with
  | array elements => exact absurd rfl (h elements)
  | _ => simp [statementsOf, statementOf, hoistedBy, sourceOf, Node.kind]

end Account

/-! ## The result of a function -/

theorem withResult_singleton (node : Node) (before : List ESTree) (last : ESTree) :
    withResult [node] (before ++ [last]) = before ++ [lastOf node last] := by
  unfold withResult lastOf
  simp only [List.getLast?_singleton]
  split
  · rfl
  · simp

/-- The result is given at the end, so what stands before is no matter. -/
theorem withResult_append {node : Node} {nodes : List Node} (hnodes : nodes ≠ [])
    {before statements : List ESTree} (hstatements : statements ≠ []) :
    withResult (node :: nodes) (before ++ statements) = before ++ withResult nodes statements := by
  obtain ⟨front, last, rfl⟩ := List.eq_nil_or_concat statements |>.resolve_left hstatements
  unfold withResult
  rw [List.getLast?_cons_of_ne_nil hnodes]
  split
  · rfl
  · split
    · rfl
    · simp

/-- The statements of a function are those of a list of its own, but for the result at the end. -/
theorem withResult_statementsOf (o : Options) (temporary : Nat → String) (depth k : Nat)
    (body : List Node) :
    withResult body (statementsOf o temporary .other depth k body) =
      statementsOf o temporary .function depth k body := by
  induction body generalizing k with
  | nil => exact withResult_nil []
  | cons node nodes ih =>
      cases nodes with
      | nil => simpa [statementsOf] using withResult_singleton node _ _
      | cons next rest =>
          have hrest : statementsOf o temporary .other depth (k + arrayLoops [node])
              (next :: rest) ≠ [] := by
            simp [statementsOf]
          rw [statementsOf_cons, withResult_append (List.cons_ne_nil _ _) hrest, ih]
          simp [statementsOf]

/-! ## Lowering keeps to the account -/

/-- The `i`-th temporary of a list is `temporary i`. -/
def Numbers (temporary : Nat → String) (drawn : List String) : Prop :=
  ∀ i name, drawn[i]? = some name → temporary i = name

theorem Numbers.mono {temporary : Nat → String} {drawn later : List String}
    (h : Numbers temporary later) (hdrawn : drawn <+: later) : Numbers temporary drawn := by
  obtain ⟨new, rfl⟩ := hdrawn
  intro i name hi
  obtain ⟨hlt, -⟩ := List.getElem?_eq_some_iff.1 hi
  exact h i name (by rwa [List.getElem?_append_left hlt])

section Lowers

variable {o : Options} {form : Form} {depth : Nat} {r r' : Registry} {es hs : List ESTree}
  {ws : List Warning}

/-- Without a warning, value positions hold the values of their nodes. -/
theorem eq_valuesOf_of_lowers (h : Lowers o form depth r es hs ws r')
    (hplace : form.place = .value) (hws : ws = []) : es = valuesOf o form.nodes := by
  induction h with
  | identifier | integer | float | string => simp [Form.nodes, valuesOf, valueOf]
  | useModule | exportName | array _ ih | get _ ih | set _ ih | call _ ih | arithmetic _ ih =>
      obtain rfl : _ = Place.value := hplace
      simp_all [Form.nodes, Form.place, valuesOf, valueOf, Place.embed]
  | assignment | create | useModuleAs | function | iteratorArray | iterator | conditional
  | conditionalElse | result =>
      -- each of these warns here
      obtain rfl : _ = Place.value := hplace
      simp [Place.warnings] at hws
  | noValues => rfl
  | values _ _ ihnode ihnodes =>
      rw [List.append_eq_nil_iff] at hws
      simpa [Form.nodes, valuesOf, ihnodes rfl hws.2] using ihnode rfl hws.1
  | emptyBlock | block => cases hplace

theorem eq_valueOf_of_lowers {node : Node} {e : ESTree}
    (h : Lowers o (.values [node]) depth r [e] hs [] r') : e = valueOf o node := by
  simpa [Form.nodes, valuesOf] using eq_valuesOf_of_lowers h rfl rfl

theorem head?_valuesOf_toList (node : Option Node) :
    (valuesOf o node.toList).head? = node.map (valueOf o) := by
  cases node <;> rfl

/-- Without a warning, a statement list holds what the account says, if the temporaries are those
that are drawn.  Along the induction the next one is known by the number of those drawn before. -/
theorem eq_statementsOf_of_lowers {temporary : Nat → String}
    (h : Lowers o form depth r es hs ws r') (hplace : form.place = .statement) (hws : ws = [])
    (htemporary : Numbers temporary r'.drawn) :
    hs ++ es = statementsOf o temporary .other depth r.drawn.length form.nodes := by
  induction h with
  | identifier | integer | float | string | create | useModuleAs =>
      simp [Form.nodes, statementsOf, statementOf, hoistedBy]
  | useModule | exportName =>
      obtain rfl : _ = Place.statement := hplace
      simp [Form.nodes, statementsOf, statementOf, hoistedBy, valueOf, Place.embed]
  | array hparts | get hparts | set hparts | call hparts | arithmetic hparts | assignment hparts
  | result hparts =>
      obtain rfl : _ = Place.statement := hplace
      have hes := eq_valuesOf_of_lowers hparts rfl hws
      have hhs := (eq_of_lowers_value hparts rfl hws).1
      simp_all [Form.nodes, statementsOf, statementOf, hoistedBy, valueOf, valuesOf, Place.embed,
        head?_valuesOf_toList]
  | @function _ name params body _ _ _ _ _ _ ih =>
      obtain rfl : _ = Place.statement := hplace
      have hbody := ih rfl hws htemporary
      rw [List.nil_append, Registry.drawn_define] at hbody
      rw [hbody, Form.nodes, statementsOf_singleton (by simp), statementOf, Form.nodes,
        withResult_statementsOf, List.nil_append]
  | @iteratorArray _ source body _ r r₁ r₂ r₃ _ _ _ _ _ name hsource hfresh hbody _ ih =>
      obtain rfl : _ = Place.statement := hplace
      obtain ⟨rfl, rfl⟩ := List.append_eq_nil_iff.1 hws
      obtain ⟨elements, rfl⟩ := (exists_eq_arrayExpression_iff hsource).1 ⟨_, rfl⟩
      obtain ⟨rfl, rfl⟩ := eq_of_lowers_value hsource rfl rfl
      have hdrawn := (Registry.draws_of_fresh? hfresh).drawn
      have hname : temporary r₁.drawn.length = name := by
        apply htemporary.mono (drawn_prefix_of_lowers hbody)
        rw [hdrawn, List.getElem?_concat_length]
      have hss := ih rfl rfl htemporary
      rw [List.nil_append, hdrawn, List.length_append, List.length_singleton] at hss
      rw [hss, eq_valueOf_of_lowers hsource, Form.nodes, statementsOf_iteratorArray, hname]
      rfl
  | @iterator _ source body _ r r₁ r₂ s _ _ _ _ hsource harray hbody _ ih =>
      obtain rfl : _ = Place.statement := hplace
      obtain ⟨rfl, rfl⟩ := List.append_eq_nil_iff.1 hws
      obtain ⟨rfl, rfl⟩ := eq_of_lowers_value hsource rfl rfl
      have hnone : ∀ elements, source ≠ .array elements := by
        rintro elements rfl
        obtain ⟨es, rfl⟩ := (exists_eq_arrayExpression_iff hsource).2 ⟨elements, rfl⟩
        exact harray es rfl
      have hss := ih rfl rfl htemporary
      rw [List.nil_append] at hss
      rw [hss, eq_valueOf_of_lowers hsource, Form.nodes, statementsOf_iterator hnone]
      rfl
  | @conditional _ check left right pass _ _ _ _ _ _ _ _ _ _ hoperands hpass _ ihpass =>
      obtain rfl : _ = Place.statement := hplace
      obtain ⟨rfl, rfl⟩ := List.append_eq_nil_iff.1 hws
      obtain ⟨rfl, rfl⟩ := eq_of_lowers_value hoperands rfl rfl
      have hes := eq_valuesOf_of_lowers hoperands rfl rfl
      have hps := ihpass rfl rfl htemporary
      simp_all [Form.nodes, statementsOf, statementOf, branchOf, hoistedBy, valuesOf,
        head?_valuesOf_toList]
  | @conditionalElse _ check left right pass fail _ _ _ _ _ _ _ _ _ _ _ _ _ hoperands hpass hfail _
      ihpass ihfail =>
      obtain rfl : _ = Place.statement := hplace
      obtain ⟨hboth, rfl⟩ := List.append_eq_nil_iff.1 hws
      obtain ⟨rfl, rfl⟩ := List.append_eq_nil_iff.1 hboth
      obtain ⟨rfl, rfl⟩ := eq_of_lowers_value hoperands rfl rfl
      have hes := eq_valuesOf_of_lowers hoperands rfl rfl
      have hps := ihpass rfl rfl (htemporary.mono (drawn_prefix_of_lowers hfail))
      have hfs := ihfail rfl rfl htemporary
      rw [length_drawn_of_lowers hpass] at hfs
      simp_all [Form.nodes, statementsOf, statementOf, branchOf, hoistedBy, valuesOf,
        head?_valuesOf_toList]
  | noValues | values => cases hplace
  | emptyBlock => rfl
  | @block node nodes _ _ _ _ _ _ _ _ _ hnode hnodes ihnode ihnodes =>
      obtain ⟨rfl, rfl⟩ := List.append_eq_nil_iff.1 hws
      have hfirst := ihnode rfl rfl (htemporary.mono (drawn_prefix_of_lowers hnodes))
      have hrest := ihnodes rfl rfl htemporary
      rw [length_drawn_of_lowers hnode] at hrest
      simp only [Form.nodes, List.nil_append] at hfirst hrest ⊢
      rw [statementsOf_cons, ← hfirst, ← hrest, List.append_assoc, List.singleton_append]

end Lowers

/-- Without a warning the output is the statements of the program as the account lists them.  Its
temporaries are the drawn ones in their order: all different, and one for each loop over an
array. -/
theorem body_eq_statementsOf {o : Options} {supply : Supply} {program : List Node}
    {lowered : Lowered} (h : lowerProgram o supply program = some lowered)
    (hwarnings : lowered.warnings = []) :
    lowered.body = statementsOf o (lowered.temporaries.getD · "") .other 0 0 program ∧
      lowered.temporaries.length = arrayLoops program ∧ lowered.temporaries.Nodup := by
  obtain ⟨r, hlowers, -, hdrawn⟩ := lowers_of_lowerProgram h
  have hstart := drawn_initialContext o supply program
  have hnumbers : Numbers (lowered.temporaries.getD · "") r.drawn := by
    intro i name hi
    simp [hdrawn, hi]
  have hbody := eq_statementsOf_of_lowers hlowers rfl hwarnings hnumbers
  have hlength := length_drawn_of_lowers hlowers
  have hsound := sound_of_lowers hlowers (Registry.sound_of_drawn_eq_nil hstart)
  rw [hstart] at hbody hlength
  refine ⟨hbody, ?_, ?_⟩
  · simpa [hdrawn, Form.nodes] using hlength
  · rw [hdrawn]
    exact hsound.nodup

/-- A function with a branch and a loop: in the branch stands a loop in a loop. -/
def nestedLoops : List Node :=
  let inner : Node := .iterator (.array [.integer "2"]) [.call "f" [.identifier "item"]]
  let outer : Node := .iterator (.array [.integer "1"]) [inner, .call "f" []]
  [.function "g" ["x"]
    [.conditional .present (.identifier "x") none [outer] none,
      .iterator (.array []) [.identifier "x"]]]

theorem body_eq_statementsOf_nestedLoops :
    ∃ lowered, lowerProgram {} (.ofSeed 0) nestedLoops = some lowered ∧ lowered.warnings = [] ∧
      lowered.temporaries = ["_t0", "_t1", "_t2"] ∧
      lowered.body = statementsOf {} (["_t0", "_t1", "_t2"].getD · "") .other 0 0 nestedLoops ∧
      lowered.body =
        [functionDeclaration (identifier "g") [identifier "x"] [] (blockStatement
          [ifStatement (identifier "x") (blockStatement
              [declare "_t0" (arrayExpression [number (.finite false 4503599627370496 (-52)) "1"]),
                forStatement
                  (declare "_i0" (number (.zero false) "0"))
                  (binaryExpression .lessThan (identifier "_i0")
                    (member (identifier "_t0") "length"))
                  (updateExpression false (identifier "_i0"))
                  (blockStatement
                    [declare "item" (index (identifier "_t0") (identifier "_i0")),
                      declare "_t1"
                        (arrayExpression [number (.finite false 4503599627370496 (-51)) "2"]),
                      forStatement
                        (declare "_i1" (number (.zero false) "0"))
                        (binaryExpression .lessThan (identifier "_i1")
                          (member (identifier "_t1") "length"))
                        (updateExpression false (identifier "_i1"))
                        (blockStatement
                          [declare "item" (index (identifier "_t1") (identifier "_i1")),
                            expressionStatement
                              (callExpression (identifier "f") [identifier "item"])]),
                      expressionStatement (callExpression (identifier "f") [])])])
            none,
          declare "_t2" (arrayExpression []),
          forStatement
            (declare "_i0" (number (.zero false) "0"))
            (binaryExpression .lessThan (identifier "_i0") (member (identifier "_t2") "length"))
            (updateExpression false (identifier "_i0"))
            (blockStatement
              [declare "item" (index (identifier "_t2") (identifier "_i0")),
                identifier "x"])])] := by
  have hrun : (lowerProgram {} (.ofSeed 0) nestedLoops).map (fun l => (l.warnings, l.temporaries)) =
      some ([], ["_t0", "_t1", "_t2"]) := by
    decide +kernel
  obtain ⟨lowered, hlowered, hpair⟩ := Option.map_eq_some_iff.1 hrun
  obtain ⟨hwarnings, htemporaries⟩ := Prod.mk.inj hpair
  have hbody := (body_eq_statementsOf hlowered hwarnings).1
  rw [htemporaries] at hbody
  have hone : Decimal.literalValue "1" = .finite false 4503599627370496 (-52) := by decide +kernel
  have htwo : Decimal.literalValue "2" = .finite false 4503599627370496 (-51) := by decide +kernel
  refine ⟨lowered, hlowered, hwarnings, htemporaries, hbody, hbody.trans ?_⟩
  rw [← hone, ← htwo]
  rfl

end LijsCompiler.Lowering
