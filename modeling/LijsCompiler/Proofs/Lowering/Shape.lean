import LijsCompiler.Proofs.ESTree.Slots
import LijsCompiler.Proofs.Lowering.Rules

/-!
# Blocks and declarations in the output

Branches, loop bodies and function bodies are blocks, and a loop begins with a declaration, whatever
stands in the places of values.
-/

namespace LijsCompiler.Lowering

open ESTree

/-! ## The result of a function -/

/-- Giving the result changes the last statement or nothing. -/
theorem withResult_concat (body : List Node) (before : List ESTree) (last : ESTree) :
    withResult body (before ++ [last]) = before ++ [last] ∨
      withResult body (before ++ [last]) = before ++ [resultOf last] := by
  unfold withResult
  split
  · exact .inl rfl
  · split
    · exact .inl rfl
    · right
      simp

theorem withResult_nil (body : List Node) : withResult body [] = [] := by
  unfold withResult
  split
  · rfl
  · split <;> rfl

theorem forall_mem_withResult {P : ESTree → Prop} (hresult : ∀ e, P (resultOf e) ↔ P e)
    (body : List Node) (ss : List ESTree) : (∀ s ∈ withResult body ss, P s) ↔ ∀ s ∈ ss, P s := by
  rcases List.eq_nil_or_concat ss with rfl | ⟨before, last, rfl⟩
  · rw [withResult_nil]
  · rw [List.concat_eq_append]
    rcases withResult_concat body before last with h | h
    · rw [h]
    · rw [h, List.forall_mem_append, List.forall_mem_append, List.forall_mem_singleton,
        List.forall_mem_singleton, hresult]

/-! ## Blocks and declarations -/

structure ShapedHere (node : ESTree) : Prop where
  blocks : ∀ slot ∈ node.blockSlots, slot.isBlock
  declarations : ∀ slot ∈ node.initSlots, slot.isDeclaration

theorem shapedHere_of_slots {node : ESTree}
    (h : node.blockSlots.isEmpty ∧ node.initSlots.isEmpty) : ShapedHere node := by
  rw [List.isEmpty_iff, List.isEmpty_iff] at h
  exact ⟨by simp [h.1], by simp [h.2]⟩

theorem shapedHere_declare (name : String) (init : ESTree) : ShapedHere (declare name init) :=
  shapedHere_of_slots ⟨rfl, rfl⟩

theorem isShaped_path (name : String) : Everywhere ShapedHere (path name) := by
  apply path_induction
  · simp [shapedHere_of_slots, blockSlots, initSlots]
  · simp [shapedHere_of_slots, blockSlots, initSlots, member]

theorem isShaped_embed {place : Place} {e : ESTree} :
    Everywhere ShapedHere (place.embed e) ↔ Everywhere ShapedHere e := by
  cases place with
  | statement => simp [shapedHere_of_slots, blockSlots, initSlots, Place.embed]
  | value => rfl

theorem isShaped_bound {name : String} {init : ESTree} (h : Everywhere ShapedHere init) :
    Everywhere ShapedHere (bound name init) := by
  unfold bound
  split
  · simp [shapedHere_of_slots, blockSlots, initSlots, isShaped_path, h]
  · simp [shapedHere_of_slots, blockSlots, initSlots, shapedHere_declare, h]

theorem isShaped_resultOf (e : ESTree) :
    Everywhere ShapedHere (resultOf e) ↔ Everywhere ShapedHere e := by
  unfold resultOf
  split
  · simp [shapedHere_of_slots, blockSlots, initSlots]
  · split <;> simp [shapedHere_of_slots, blockSlots, initSlots]

theorem isShaped_testOf {check : Check} {l : ESTree} {rs : List ESTree}
    (h : ∀ e ∈ l :: rs, Everywhere ShapedHere e) :
    Everywhere ShapedHere (testOf check l rs.head?) := by
  rw [List.forall_mem_cons] at h
  cases rs with
  | nil => cases check <;> exact h.1
  | cons x others =>
      have hx := h.2 x (by simp)
      cases check <;>
        simp [shapedHere_of_slots, blockSlots, initSlots, testOf, member, h.1, hx]

theorem isShaped_countingLoop {source : ESTree} {i : String} {body : List ESTree}
    (hsource : Everywhere ShapedHere source) (hbody : ∀ s ∈ body, Everywhere ShapedHere s) :
    Everywhere ShapedHere (countingLoop source i body) := by
  have hhere : ShapedHere (countingLoop source i body) :=
    ⟨by simp [countingLoop, blockSlots, isBlock],
      by simp [countingLoop, initSlots, declare, isDeclaration]⟩
  refine everywhere_forStatement.2 ⟨hhere, ?_⟩
  simpa [member, index, number, shapedHere_declare, shapedHere_of_slots, blockSlots, initSlots,
    hsource] using hbody

theorem isShaped_ifStatement {test : ESTree} {pass : List ESTree} {fail : Option (List ESTree)}
    (htest : Everywhere ShapedHere test) (hpass : ∀ s ∈ pass, Everywhere ShapedHere s)
    (hfail : ∀ ss ∈ fail, ∀ s ∈ ss, Everywhere ShapedHere s) :
    Everywhere ShapedHere
      (ifStatement test (blockStatement pass) (fail.map blockStatement)) := by
  have hblock {body : List ESTree} (hbody : ∀ s ∈ body, Everywhere ShapedHere s) :
      Everywhere ShapedHere (blockStatement body) := by
    simpa [shapedHere_of_slots, blockSlots, initSlots] using hbody
  refine everywhere_ifStatement.2 ⟨⟨?_, ?_⟩, htest, hblock hpass, ?_⟩
  · cases fail <;> simp [blockSlots, isBlock]
  · simp [initSlots]
  · cases fail with
    | none => simp
    | some ss => simpa using hblock (hfail ss rfl)

theorem isShaped_functionDeclaration {name : String} {params : List String} {body : List Node}
    {ss : List ESTree} (hss : ∀ s ∈ ss, Everywhere ShapedHere s) :
    Everywhere ShapedHere (functionDeclaration (identifier name) (params.map identifier) []
      (blockStatement (withResult body ss))) := by
  refine everywhere_functionDeclaration.2 ⟨⟨?_, ?_⟩, ?_⟩
  · simp [blockSlots, isBlock]
  · simp [initSlots]
  · have hresult := (forall_mem_withResult isShaped_resultOf body ss).2 hss
    simpa [shapedHere_of_slots, blockSlots, initSlots] using hresult

/-- Whatever is lowered, the output has its blocks and declarations where they belong. -/
theorem isShaped_of_lowers {o : Options} {form : Form} {depth : Nat} {r r' : Registry}
    {es hs : List ESTree} {ws : List Warning} (h : Lowers o form depth r es hs ws r') :
    (∀ e ∈ hs, Everywhere ShapedHere e) ∧ ∀ e ∈ es, Everywhere ShapedHere e := by
  induction h with
  | identifier => simp [isShaped_path]
  | integer | float => simp [shapedHere_of_slots, blockSlots, initSlots, numberLiteral, number]
  | string => simp [shapedHere_of_slots, blockSlots, initSlots, ESTree.string]
  | useModule | exportName =>
      simp [isShaped_embed, require, exported, member, ESTree.string, isShaped_path,
        shapedHere_of_slots, blockSlots, initSlots]
  | create => simp [shapedHere_of_slots, blockSlots, initSlots, isShaped_bound]
  | useModuleAs =>
      simp [isShaped_bound, require, ESTree.string, isShaped_path, shapedHere_of_slots, blockSlots,
        initSlots]
  | array _ ih | call _ ih | get _ ih | set _ ih | arithmetic _ ih =>
      simp_all [shapedHere_of_slots, blockSlots, initSlots, isShaped_embed, isShaped_path, index]
  | assignment _ ih => simp_all [isShaped_bound]
  | result _ ih =>
      refine ⟨ih.1, ?_⟩
      simp only [List.forall_mem_singleton, everywhere_returnStatement]
      refine ⟨by simp [shapedHere_of_slots, blockSlots, initSlots], fun e he => ?_⟩
      exact ih.2 e (List.mem_of_head? he)
  | function _ ih => simpa using isShaped_functionDeclaration ih.2
  | iteratorArray _ _ _ ihsource ihbody =>
      simp only [List.forall_mem_append, List.forall_mem_singleton,
        everywhere_declare] at ihsource ⊢
      refine ⟨⟨ihsource.1, shapedHere_declare .., ?_, ihsource.2⟩, ?_⟩
      · simp [shapedHere_of_slots, blockSlots, initSlots]
      · exact isShaped_countingLoop (by simp [shapedHere_of_slots, blockSlots, initSlots]) ihbody.2
  | iterator _ _ _ ihsource ihbody =>
      simp only [List.forall_mem_singleton] at ihsource ⊢
      exact ⟨ihsource.1, isShaped_countingLoop ihsource.2 ihbody.2⟩
  | conditional _ _ ihoperands ihpass =>
      refine ⟨ihoperands.1, List.forall_mem_singleton.2 ?_⟩
      exact @isShaped_ifStatement _ _ none (isShaped_testOf ihoperands.2) ihpass.2 (by simp)
  | @conditionalElse _ _ _ _ _ _ _ _ _ _ _ _ _ _ _ fs _ _ _ _ _ _ ihoperands ihpass ihfail =>
      refine ⟨ihoperands.1, List.forall_mem_singleton.2 ?_⟩
      exact @isShaped_ifStatement _ _ (some fs) (isShaped_testOf ihoperands.2) ihpass.2
        (by simpa using ihfail.2)
  | noValues | emptyBlock => simp
  | values _ _ ihnode ihnodes =>
      simp only [List.forall_mem_append, List.forall_mem_cons] at ihnode ⊢
      exact ⟨⟨ihnode.1, ihnodes.1⟩, ihnode.2.1, ihnodes.2⟩
  | block _ _ ihnode ihnodes =>
      simp only [List.forall_mem_append, List.forall_mem_cons] at ihnode ⊢
      exact ⟨ihnodes.1, ihnode.1, ihnode.2.1, ihnodes.2⟩

end LijsCompiler.Lowering
