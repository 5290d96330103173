import LijsCompiler.Proofs.Lowering.LoopSource
import LijsCompiler.Proofs.Lowering.Values

/-!
# The indices of nested loops

Lowering counts the loops around the place at hand, and the index of a loop is named for that count.
In the output the count can be read off the tree: `LiesIn d e node` says that a node lies inside
exactly `d` loops of a tree.  Without a warning the index of every loop is the one for the number of
loops around it.  So it differs from the indices of the loops inside, and no name of the source and
no temporary is an index (`loopIndex_of_compile`).
-/

namespace LijsCompiler

namespace ESTree

/-- The node is the tree itself or a node below, and exactly `d` loops of the tree are around it. -/
inductive LiesIn : Nat → ESTree → ESTree → Prop where
  | here {e : ESTree} : LiesIn 0 e e
  | inPart {d : Nat} {e part node : ESTree} (hloop : e.isLoop = false) (hpart : part ∈ e.parts)
      (h : LiesIn d part node) : LiesIn d e node
  | inLoop {d : Nat} {e part node : ESTree} (hloop : e.isLoop) (hpart : part ∈ e.parts)
      (h : LiesIn d part node) : LiesIn (d + 1) e node

def index? : ESTree → Option String
  | forStatement (variableDeclaration [.mk (identifier i) _]) _ _ _ => some i
  | _ => none

namespace LiesIn

variable {d k : Nat} {e node inner : ESTree}

theorem mem_walk (h : LiesIn d e node) : node ∈ walk e := by
  induction h with
  | here =>
      rw [walk_eq]
      exact List.mem_cons_self ..
  | inPart _ hpart _ ih | inLoop _ hpart _ ih =>
      rw [walk_eq]
      exact List.mem_cons_of_mem _ (List.mem_flatMap.2 ⟨_, hpart, ih⟩)

/-- The relation misses no node: each one of a walk lies inside some number of loops. -/
theorem exists_iff_mem_walk : (∃ d, LiesIn d e node) ↔ node ∈ walk e := by
  refine ⟨fun ⟨_, h⟩ => h.mem_walk, fun h => ?_⟩
  induction hlength : (walk e).length using Nat.strongRecOn generalizing e with
  | ind n ih =>
      subst hlength
      rw [walk_eq, List.mem_cons, List.mem_flatMap] at h
      rcases h with rfl | ⟨part, hpart, hnode⟩
      · exact ⟨0, .here⟩
      · have hshorter : (walk part).length < (walk e).length := by
          obtain ⟨before, after, hparts⟩ := List.append_of_mem hpart
          rw [walk_eq e, hparts, List.length_cons, List.flatMap_append, List.flatMap_cons,
            List.length_append, List.length_append]
          omega
        obtain ⟨d, hd⟩ := ih _ hshorter hnode rfl
        cases hloop : e.isLoop with
        | false => exact ⟨d, .inPart hloop hpart hd⟩
        | true => exact ⟨d + 1, .inLoop hloop hpart hd⟩

theorem trans (h : LiesIn d e node) (hinner : LiesIn k node inner) : LiesIn (d + k) e inner := by
  induction h with
  | here => simpa using hinner
  | inPart hloop hpart _ ih => exact .inPart hloop hpart (ih hinner)
  | inLoop hloop hpart _ ih =>
      rw [Nat.add_right_comm]
      exact .inLoop hloop hpart (ih hinner)

end LiesIn

end ESTree

open ESTree

theorem toList_loopIndex (depth : Nat) :
    (loopIndex depth).toList = '_' :: 'i' :: Nat.toDigits 10 depth := by
  simp [loopIndex]

theorem loopIndex_injective {depth other : Nat} (h : loopIndex depth = loopIndex other) :
    depth = other := by
  have hdigits : Nat.toDigits 10 depth = Nat.toDigits 10 other := by
    simpa [toList_loopIndex] using congrArg String.toList h
  rw [← @Nat.ofDigitChars_ten_toDigits depth, hdigits, Nat.ofDigitChars_ten_toDigits]

theorem mem_of_mem_splitOn {sep c : Char} {cs piece : List Char} (hpiece : piece ∈ cs.splitOn sep)
    (hc : c ∈ piece) : c ∈ cs := by
  induction cs generalizing piece with
  | nil =>
      obtain rfl : piece = [] := by simpa using hpiece
      cases hc
  | cons d cs ih =>
      rw [List.splitOn_cons_eq_if_modifyHead] at hpiece
      split at hpiece
      · rcases List.mem_cons.1 hpiece with rfl | hpiece
        · cases hc
        · exact List.mem_cons_of_mem _ (ih hpiece hc)
      · obtain ⟨first, others, hsplit⟩ := List.exists_cons_of_ne_nil (List.splitOn_ne_nil sep cs)
        rw [hsplit] at hpiece ih
        rcases List.mem_cons.1 hpiece with rfl | hpiece
        · rcases List.mem_cons.1 hc with rfl | hc
          · exact List.mem_cons_self ..
          · exact List.mem_cons_of_mem _ (ih (List.mem_cons_self ..) hc)
        · exact List.mem_cons_of_mem _ (ih (List.mem_cons_of_mem _ hpiece) hc)

/-- A loop index begins with a character that no name of a source has. -/
theorem loopIndex_not_mem_segments {name : String} (h : Token.IsName name.toList) (depth : Nat) :
    loopIndex depth ∉ name :: Name.segments name := by
  have hmem : '_' ∈ (loopIndex depth).toList := by
    rw [toList_loopIndex]
    exact List.mem_cons_self ..
  have hnone : '_' ∉ name.toList := by
    intro hmem
    exact absurd (h.isNameChar '_' hmem) (by decide)
  intro hindex
  rcases List.mem_cons.1 hindex with heq | hsegment
  · rw [heq] at hmem
    exact hnone hmem
  · obtain ⟨piece, hpiece, heq⟩ := List.mem_map.1 hsegment
    rw [← heq, String.toList_ofList] at hmem
    exact hnone (mem_of_mem_splitOn hpiece hmem)

namespace Lowering

/-! ## Loops along the account -/

/-- Every loop of the tree is a counting loop whose index is that for the number of loops around
it, if `depth` loops are around the tree. -/
def IndexedFrom (depth : Nat) (e : ESTree) : Prop :=
  ∀ d loop, LiesIn d e loop → loop.isLoop →
    ∃ s ss, loop = countingLoop s (loopIndex (depth + d)) ss

section Indexed

variable {o : Options} {temporary : Nat → String} {depth k : Nat} {e : ESTree}

theorem indexedFrom_of_isPure (h : e.IsPure) (depth : Nat) : IndexedFrom depth e := by
  intro d loop hloop hfor
  have hexpression := h loop hloop.mem_walk
  cases loop <;> simp_all [isLoop, isExpression]

theorem indexedFrom_of_parts (hloop : e.isLoop = false)
    (h : ∀ part ∈ e.parts, IndexedFrom depth part) : IndexedFrom depth e := by
  intro d loop hlies hfor
  cases hlies with
  | here =>
      rw [hloop] at hfor
      cases hfor
  | inPart _ hpart hlies => exact h _ hpart d loop hlies hfor
  | inLoop hloop' =>
      rw [hloop] at hloop'
      cases hloop'

theorem IndexedFrom.part {part : ESTree} (h : IndexedFrom depth e) (hloop : e.isLoop = false)
    (hpart : part ∈ e.parts) : IndexedFrom depth part :=
  fun d loop hlies hfor => h d loop (.inPart hloop hpart hlies) hfor

theorem IndexedFrom.resultOf (h : IndexedFrom depth e) : IndexedFrom depth (resultOf e) := by
  unfold Lowering.resultOf
  split
  · apply indexedFrom_of_parts rfl
    simpa [parts] using h.part rfl (by simp [parts])
  · split
    · exact indexedFrom_of_parts rfl (by simpa [parts] using h)
    · exact h

theorem IndexedFrom.lastOf (h : IndexedFrom depth e) (node : Node) :
    IndexedFrom depth (lastOf node e) := by
  unfold Lowering.lastOf
  split
  · exact h
  · exact h.resultOf

theorem indexedFrom_declare (name : String) (h : e.IsPure) (depth : Nat) :
    IndexedFrom depth (declare name e) := by
  apply indexedFrom_of_parts rfl
  simp [declare, parts, declaratorParts, indexedFrom_of_isPure (isPure_identifier name),
    indexedFrom_of_isPure h]

theorem indexedFrom_bound (name : String) (h : e.IsPure) (depth : Nat) :
    IndexedFrom depth (bound name e) := by
  unfold bound
  split
  · have hassign := isPure_assignmentExpression (isPure_path name) h
    apply indexedFrom_of_parts rfl
    simpa [parts] using indexedFrom_of_isPure hassign depth
  · exact indexedFrom_declare name h depth

theorem indexedFrom_blockStatement {body : List ESTree} (h : ∀ e ∈ body, IndexedFrom depth e) :
    IndexedFrom depth (blockStatement body) :=
  indexedFrom_of_parts rfl h

/-- One loop more is around what stands in a loop. -/
theorem indexedFrom_countingLoop {s : ESTree} {ss : List ESTree} (hs : s.IsPure)
    (hss : ∀ e ∈ ss, IndexedFrom (depth + 1) e) :
    IndexedFrom depth (countingLoop s (loopIndex depth) ss) := by
  have hindex := isPure_identifier (loopIndex depth)
  have htest := isPure_binaryExpression .lessThan hindex (isPure_member hs "length")
  have hupdate := isPure_updateExpression false hindex
  have hparts : ∀ part ∈ (countingLoop s (loopIndex depth) ss).parts,
      IndexedFrom (depth + 1) part := by
    simp only [countingLoop, parts, List.forall_mem_cons]
    refine ⟨indexedFrom_declare _ (isPure_literal _ _) _, indexedFrom_of_isPure htest _,
      indexedFrom_of_isPure hupdate _, indexedFrom_blockStatement ?_, by simp⟩
    rw [List.forall_mem_cons]
    exact ⟨indexedFrom_declare _ (isPure_index hs hindex) _, hss⟩
  intro d loop hlies hfor
  cases hlies with
  | here => exact ⟨s, ss, rfl⟩
  | inPart hloop => cases hloop
  | inLoop _ hpart hlies =>
      obtain ⟨t, ts, rfl⟩ := hparts _ hpart _ _ hlies hfor
      exact ⟨t, ts, by rw [Nat.add_assoc, Nat.add_comm 1]⟩

/-- The statements of a list stand inside the same loops, whoever owns them. -/
theorem indexedFrom_statementsOf {nodes : List Node}
    (h : ∀ node ∈ nodes, ∀ k, IndexedFrom depth (statementOf o temporary depth k node))
    (owner : Body) (k : Nat) :
    ∀ e ∈ statementsOf o temporary owner depth k nodes, IndexedFrom depth e := by
  induction nodes generalizing k with
  | nil => simp [statementsOf]
  | cons node nodes ih =>
      obtain ⟨hnode, hnodes⟩ := List.forall_mem_cons.1 h
      rw [statementsOf, List.forall_mem_append, List.forall_mem_cons]
      refine ⟨fun e he => ?_, ?_, ih hnodes _⟩
      · obtain ⟨init, hinit, rfl⟩ := exists_eq_declare_of_mem_hoistedBy o he
        exact indexedFrom_declare _ hinit depth
      · split
        · exact (hnode k).lastOf node
        · exact hnode k

/-- The loops around a node are counted along the account. -/
theorem indexedFrom_statementOf (node : Node) (depth k : Nat) :
    IndexedFrom depth (statementOf o temporary depth k node) := by
  induction node using Node.children_induction generalizing depth k with
  | step node ih =>
      have hbody (nodes : List Node) (hsub : ∀ n ∈ nodes, n ∈ node.children) (owner : Body)
          (depth k : Nat) :
          ∀ e ∈ statementsOf o temporary owner depth k nodes, IndexedFrom depth e :=
        indexedFrom_statementsOf (fun n hn k => ih n (hsub n hn) depth k) owner k
      cases hvalue : node.givesNoValue with
      | false =>
          have hpure := indexedFrom_of_isPure (isPure_valueOf o node) depth
          rcases statementOf_of_givesValue hvalue with heq | heq
          · rw [heq]
            exact hpure
          · rw [heq]
            exact indexedFrom_of_parts rfl (by simpa [parts] using hpure)
      | true =>
          cases node with
          | assignment name value => exact indexedFrom_bound name (isPure_valueOf o value) depth
          | create name =>
              have hempty : (objectExpression []).IsPure := by simp [IsPure, isExpression]
              exact indexedFrom_bound name hempty depth
          | useModule text binding =>
              cases binding with
              | none => cases hvalue
              | some name => exact indexedFrom_bound name (isPure_require o text) depth
          | function name params body =>
              have hname {name : String} : IndexedFrom depth (identifier name) :=
                indexedFrom_of_isPure (isPure_identifier name) depth
              have hblock := indexedFrom_blockStatement
                (hbody body (fun _ hn => hn) .function depth k)
              rw [statementOf]
              apply indexedFrom_of_parts rfl
              simpa [parts, or_imp, forall_and, hname] using hblock
          | iterator source body =>
              rw [statementOf]
              exact indexedFrom_countingLoop (isPure_sourceOf o _ source)
                (hbody body (fun _ hn => List.mem_cons_of_mem _ hn) .other (depth + 1) _)
          | conditional check left right pass fail =>
              have htest : (testOf check (valueOf o left) (right.map (valueOf o))).IsPure := by
                apply isPure_testOf (isPure_valueOf o left)
                simp [isPure_valueOf]
              have hpass := hbody pass (by simp +contextual [Node.children]) .other depth k
              rw [statementOf]
              apply indexedFrom_of_parts rfl
              rw [parts, List.forall_mem_cons, List.forall_mem_cons]
              refine ⟨indexedFrom_of_isPure htest depth, indexedFrom_blockStatement hpass, ?_⟩
              cases fail with
              | none => simp [branchOf]
              | some nodes =>
                  have hfail := hbody nodes (by simp +contextual [Node.children]) .other
                    depth (k + arrayLoops pass)
                  simpa [branchOf] using indexedFrom_blockStatement hfail
          | result value =>
              rw [statementOf]
              apply indexedFrom_of_parts rfl
              cases value with
              | none => simp [parts]
              | some node =>
                  simpa [parts] using indexedFrom_of_isPure (isPure_valueOf o node) depth
          | _ => cases hvalue

end Indexed

end Lowering

open Lowering

/-- Where a source is compiled without a warning, a loop of the output that lies inside exactly `d`
loops counts with the index `loopIndex d`: it declares this variable with 0, compares it with the
length of its sequence, increments it, and reads the element at it.  No loop inside declares the
index of a loop around it again.  No temporary is an index, and neither is a name that the source
writes nor a part of one. -/
theorem loopIndex_of_compile {c : Configuration} {supply : Supply} {source : String}
    {lowered : Lowered} (h : compile c supply source = .ok lowered)
    (hwarnings : lowered.warnings = []) :
    (∀ e ∈ lowered.body, ∀ d loop, LiesIn d e loop → loop.isLoop →
      (∃ s ss, loop = .forStatement
          (.declare (loopIndex d) (.number (.zero false) "0"))
          (.binaryExpression .lessThan (.identifier (loopIndex d)) (.member s "length"))
          (.updateExpression false (.identifier (loopIndex d)))
          (.blockStatement (.declare "item" (.index s (.identifier (loopIndex d))) :: ss))) ∧
        ∀ k inner, LiesIn (k + 1) loop inner → inner.isLoop → inner.index? ≠ loop.index?) ∧
    (∀ d, loopIndex d ∉ lowered.temporaries) ∧
    ∃ program, parseSource source = .ok program ∧
      ∀ node ∈ Node.walkAll program, ∀ name ∈ node.written, ∀ d,
        loopIndex d ∉ name :: Name.segments name := by
  obtain ⟨program, hparse, hlower⟩ := compile_eq_ok_iff.1 h
  obtain ⟨temporary, hbody⟩ := exists_body_eq_statementsOf hlower hwarnings
  obtain ⟨r, hlowers, -, htemporaries⟩ := lowers_of_lowerProgram hlower
  have hsound : r.Sound :=
    sound_of_lowers hlowers (Registry.sound_of_drawn_eq_nil (drawn_initialContext ..))
  have hindexed : ∀ e ∈ lowered.body, IndexedFrom 0 e := by
    rw [hbody]
    exact indexedFrom_statementsOf (fun node _ k => indexedFrom_statementOf node 0 k) .other 0
  refine ⟨fun e he d loop hlies hfor => ?_, fun d hmem => ?_, program, hparse, ?_⟩
  · obtain ⟨s, ss, rfl⟩ := hindexed e he d loop hlies hfor
    rw [Nat.zero_add] at hlies ⊢
    refine ⟨⟨s, ss, rfl⟩, fun k inner hinner hfor => ?_⟩
    obtain ⟨t, ts, rfl⟩ := hindexed e he _ inner (hlies.trans hinner) hfor
    intro heq
    have hdepth : 0 + (d + (k + 1)) = d := loopIndex_injective (Option.some.inj heq)
    omega
  · rw [htemporaries] at hmem
    have hindex := hsound.isLoopIndex _ hmem
    rw [isLoopIndex_loopIndex] at hindex
    cases hindex
  · intro node hnode name hname d
    exact loopIndex_not_mem_segments (Node.writesOnly_isName hparse node hnode name hname) d

def loopInFunctionInLoop : List Node :=
  let loop : Node := .iterator (.array [.identifier "x"]) [.call "g" [.identifier "x"]]
  [.iterator (.identifier "a")
    [.conditional .present (.identifier "b") none [.function "f" ["x"] [loop]] none]]

theorem loopIndex_of_compile_loopInFunctionInLoop :
    ∃ lowered, compile {} (.ofSeed 0) "@a ?b exists def f[x]@[x](g x)" = .ok lowered ∧
      lowered.warnings = [] ∧ lowered.temporaries = ["_t0"] ∧
      (∀ e ∈ lowered.body, ∀ d loop, LiesIn d e loop → loop.isLoop →
        (∃ s ss, loop = .forStatement
            (.declare (loopIndex d) (.number (.zero false) "0"))
            (.binaryExpression .lessThan (.identifier (loopIndex d)) (.member s "length"))
            (.updateExpression false (.identifier (loopIndex d)))
            (.blockStatement (.declare "item" (.index s (.identifier (loopIndex d))) :: ss))) ∧
          ∀ k inner, LiesIn (k + 1) loop inner → inner.isLoop → inner.index? ≠ loop.index?) ∧
      (∀ d, loopIndex d ∉ lowered.temporaries) ∧
      ∃ program, parseSource "@a ?b exists def f[x]@[x](g x)" = .ok program ∧
        ∀ node ∈ Node.walkAll program, ∀ name ∈ node.written, ∀ d,
          loopIndex d ∉ name :: Name.segments name := by
  have htokens : tokenize "@a ?b exists def f[x]@[x](g x)" = .ok
      [⟨.mark .loop, ⟨0, 1⟩⟩, ⟨.identifier "a", ⟨1, 2⟩⟩, ⟨.mark .condition, ⟨3, 4⟩⟩,
        ⟨.identifier "b", ⟨4, 5⟩⟩, ⟨.keyword (.check .present), ⟨6, 13⟩⟩,
        ⟨.keyword .define, ⟨13, 17⟩⟩, ⟨.identifier "f", ⟨17, 18⟩⟩, ⟨.mark .openBracket, ⟨18, 19⟩⟩,
        ⟨.identifier "x", ⟨19, 20⟩⟩, ⟨.mark .closeBracket, ⟨20, 21⟩⟩, ⟨.mark .loop, ⟨21, 22⟩⟩,
        ⟨.mark .openBracket, ⟨22, 23⟩⟩, ⟨.identifier "x", ⟨23, 24⟩⟩,
        ⟨.mark .closeBracket, ⟨24, 25⟩⟩, ⟨.mark .openParen, ⟨25, 26⟩⟩,
        ⟨.identifier "g", ⟨26, 27⟩⟩, ⟨.identifier "x", ⟨28, 29⟩⟩,
        ⟨.mark .closeParen, ⟨29, 30⟩⟩] :=
    eq_ok_of_toOption_eq_some (by decide +kernel)
  have hparse : parseSource "@a ?b exists def f[x]@[x](g x)" = .ok loopInFunctionInLoop := by
    refine parseSource_eq_ok_iff.2 ⟨_, htokens, parse_eq_ok_iff.2 ?_⟩
    exact .item (.iterator rfl (.identifier rfl) (.single (by simp)
      (.conditional rfl (.identifier rfl) rfl (.noOperand rfl) (.single (by simp)
        (.function rfl rfl rfl (.name rfl (.close rfl)) (.single (by simp)
          (.iterator rfl (.array rfl (.more (by simp) (.identifier rfl) (.done rfl)))
            (.single (by simp) (.call rfl rfl (.more (by simp) (.identifier rfl) (.done rfl))
              (.inr (by simp)))))))) (by simp)))) .nil
  have hlower : (lowerProgram {} (.ofSeed 0) loopInFunctionInLoop).map
      (fun lowered => (lowered.warnings, lowered.temporaries)) = some ([], ["_t0"]) := by
    decide +kernel
  obtain ⟨lowered, hlowered, heq⟩ := Option.map_eq_some_iff.1 hlower
  obtain ⟨hwarnings, htemporaries⟩ := Prod.mk.inj heq
  have hcompile : compile {} (.ofSeed 0) "@a ?b exists def f[x]@[x](g x)" = .ok lowered :=
    compile_eq_ok_iff.2 ⟨_, hparse, hlowered⟩
  exact ⟨lowered, hcompile, hwarnings, htemporaries, loopIndex_of_compile hcompile hwarnings⟩

end LijsCompiler
