import LijsCompiler.Proofs.Lowering.Slots
import LijsCompiler.Proofs.Parser.Names

/-!
# Wrapped expressions in value positions

A construct that gives a value to a name with a dot becomes an assignment, and the assignment is
wrapped as a statement wherever the construct stands.  All else that is wrapped stands in a body.
So the wrapped expressions in slots that want an expression are the assignments of those constructs
in value positions (`wrapped_iff_boundAsValue`).
-/

namespace LijsCompiler

open ESTree

def Node.boundMember? : Node → Option String
  | assignment name _ | create name | useModule _ (some name) =>
    if Name.isDotted name then some name else none
  | _ => none

/-- A name with a dot is given a value where a value is needed. -/
def BoundAsValue (program : List Node) (name : String) : Prop :=
  ∃ occurrence ∈ occurrencesIn program,
    occurrence.place = .value ∧ occurrence.node.boundMember? = some name

namespace ESTree

/-- An expression is wrapped as a statement in a slot that wants an expression. -/
def WrappedIn (body : List ESTree) (e : ESTree) : Prop :=
  ∃ node ∈ walkAll body, expressionStatement e ∈ node.expressionSlots

/-- What a node wraps, if it wraps anything, is an assignment to one of the targets. -/
def WrapsOnly (Target : ESTree → Prop) (e : ESTree) : Prop :=
  ∀ x, e = expressionStatement x →
    ∃ target init, Target target ∧ x = assignmentExpression target init

theorem wrapsOnly_of_isExpression {Target : ESTree → Prop} {e : ESTree} (h : e.isExpression) :
    WrapsOnly Target e := by
  rintro x rfl
  cases h

theorem forall_wrapsOnly_iff {Target : ESTree → Prop} {body : List ESTree} :
    (∀ node ∈ walkAll body, ∀ slot ∈ node.expressionSlots, WrapsOnly Target slot) ↔
      ∀ e, WrappedIn body e →
        ∃ target init, Target target ∧ e = assignmentExpression target init := by
  unfold WrapsOnly WrappedIn
  constructor
  · rintro h e ⟨node, hnode, hslot⟩
    exact h node hnode _ hslot e rfl
  · rintro h node hnode _ hslot e rfl
    exact h e ⟨node, hnode, hslot⟩

end ESTree

namespace Lowering

theorem wrapsOnly_bound {Target : ESTree → Prop} {name : String} {init : ESTree} :
    WrapsOnly Target (bound name init) ↔ (Name.isDotted name → Target (path name)) := by
  unfold bound WrapsOnly
  split
  · rename_i hdotted
    simp [hdotted]
  · rename_i hplain
    simp [hplain, declare]

/-- A node in a value position wraps nothing but an assignment to a target exactly if it gives no
value to another name with a dot. -/
theorem separates_wrapsOnly (o : Options) (Target : ESTree → Prop) :
    Separates o (WrapsOnly Target)
      (fun node => ∃ name, node.boundMember? = some name ∧ ¬ Target (path name)) := by
  intro node depth r e hs ws r' h
  cases h with
  | assignment | create | useModuleAs =>
      rw [wrapsOnly_bound]
      simp [Node.boundMember?]
  | identifier =>
      refine iff_of_true ?_ (by simp [Node.boundMember?])
      exact wrapsOnly_of_isExpression (isExpression_path _)
  | _ =>
      -- in a value position no other construct is wrapped
      refine iff_of_true ?_ (by simp [Node.boundMember?])
      rintro x ⟨⟩

/-- All that is wrapped in the output is assigned to a target exactly if every name that is bound as
a value stands for a target. -/
theorem forall_wrappedIn_iff {o : Options} {supply : Supply} {program : List Node}
    {lowered : Lowered} (hlower : lowerProgram o supply program = some lowered)
    (hwf : Node.WellFormed program) (Target : ESTree → Prop) :
    (∀ e, WrappedIn lowered.body e →
        ∃ target init, Target target ∧ e = assignmentExpression target init) ↔
      ∀ name, BoundAsValue program name → Target (path name) := by
  rw [← forall_wrapsOnly_iff, forall_slots_iff_of_lowerProgram
    (fun _ => wrapsOnly_of_isExpression) (separates_wrapsOnly o Target) hlower hwf]
  unfold BoundAsValue
  grind

end Lowering

/-- For a compiled source no slot that wants an expression holds a wrapped one exactly if no name
with a dot is given a value where a value is needed.  What is wrapped in such a slot is the
assignment to such a name, and the assignment to each such name is wrapped in some slot. -/
theorem wrapped_iff_boundAsValue {c : Configuration} {supply : Supply} {source : String}
    {lowered : Lowered} (h : compile c supply source = .ok lowered) :
    ∃ program, parseSource source = .ok program ∧
      ((∀ e, ¬ WrappedIn lowered.body e) ↔ ∀ name, ¬ BoundAsValue program name) ∧
      (∀ e, WrappedIn lowered.body e →
        ∃ name init, BoundAsValue program name ∧ e = assignmentExpression (path name) init) ∧
      ∀ name, BoundAsValue program name →
        ∃ init, WrappedIn lowered.body (assignmentExpression (path name) init) := by
  obtain ⟨program, hparse, hlower⟩ := compile_eq_ok_iff.1 h
  obtain ⟨tokens, -, htree⟩ := parseSource_eq_ok_iff.1 hparse
  have hiff := Lowering.forall_wrappedIn_iff hlower (Node.wellFormed_of_parse htree)
  have hsource : ∀ e, WrappedIn lowered.body e →
      ∃ name init, BoundAsValue program name ∧ e = assignmentExpression (path name) init := by
    intro e he
    obtain ⟨_, init, ⟨name, hname, rfl⟩, rfl⟩ :=
      (hiff fun target => ∃ name, BoundAsValue program name ∧ path name = target).2
        (fun name hname => ⟨name, hname, rfl⟩) e he
    exact ⟨name, init, hname, rfl⟩
  have houtput : ∀ name, BoundAsValue program name →
      ∃ init, WrappedIn lowered.body (assignmentExpression (path name) init) := by
    intro name hname
    by_contra hnone
    -- all that is wrapped would then be assigned to something else
    refine (hiff (· ≠ path name)).1 ?_ name hname rfl
    intro e he
    obtain ⟨other, init, -, rfl⟩ := hsource e he
    refine ⟨path other, init, ?_, rfl⟩
    intro hsame
    exact hnone ⟨init, hsame ▸ he⟩
  refine ⟨program, hparse, ⟨fun hnone name hname => ?_, fun hnone e he => ?_⟩, hsource, houtput⟩
  · obtain ⟨init, hwrapped⟩ := houtput name hname
    exact hnone _ hwrapped
  · obtain ⟨name, init, hname, -⟩ := hsource e he
    exact hnone name hname

/-- A name with a dot is bound on a line of its own.  The array has an assignment to a computed
member, and in it an object is bound to a name without a dot where a value is needed. -/
theorem wrapped_iff_boundAsValue_undotted :
    ∃ lowered, compile {} (.ofSeed 0) "$a.b [set m 'k' make x]" = .ok lowered ∧
      lowered.body = [expressionStatement (assignmentExpression (path "a.b")
        (arrayExpression [assignmentExpression (index (path "m") (string "k"))
          (declare "x" (objectExpression []))]))] ∧
      ∀ e, ¬ WrappedIn lowered.body e := by
  have htokens : tokenize "$a.b [set m 'k' make x]" = .ok
      [⟨.mark .assign, ⟨0, 1⟩⟩, ⟨.identifier "a.b", ⟨1, 4⟩⟩, ⟨.mark .openBracket, ⟨5, 6⟩⟩,
        ⟨.keyword .set, ⟨6, 10⟩⟩, ⟨.identifier "m", ⟨10, 11⟩⟩, ⟨.string "k", ⟨12, 15⟩⟩,
        ⟨.keyword .make, ⟨16, 21⟩⟩, ⟨.identifier "x", ⟨21, 22⟩⟩, ⟨.mark .closeBracket, ⟨22, 23⟩⟩] :=
    eq_ok_of_toOption_eq_some (by decide +kernel)
  have hparse : parseSource "$a.b [set m 'k' make x]" =
      .ok [.assignment "a.b" (.array [.set "m" (.string "k") (.create "x")])] := by
    refine parseSource_eq_ok_iff.2 ⟨_, htokens, parse_eq_ok_iff.2 ?_⟩
    exact .item (.assignment rfl rfl (.array rfl (.more (by simp)
      (.set rfl rfl rfl (.create rfl rfl)) (.done rfl))) (by simp [Node.kind])) .nil
  have hlower : Lowering.lowerProgram {} (.ofSeed 0)
      [.assignment "a.b" (.array [.set "m" (.string "k") (.create "x")])] = some _ := rfl
  have hcompile := compile_eq_ok_iff.2 ⟨_, hparse, hlower⟩
  obtain ⟨program, hprogram, hnone, -, -⟩ := wrapped_iff_boundAsValue hcompile
  obtain rfl := Except.ok.inj (hparse.symm.trans hprogram)
  refine ⟨_, hcompile, rfl, hnone.2 ?_⟩
  rintro name ⟨occurrence, hmem, hplace, hname⟩
  simp only [occurrencesIn, Occurrence.walk_eq, Node.placedParts, List.map_cons, List.map_append,
    List.cons_append, List.flatMap_cons, List.map_nil, List.flatMap_nil, List.append_nil,
    List.nil_append, List.mem_cons, List.not_mem_nil, or_false] at hmem
  rcases hmem with rfl | rfl | rfl | rfl | rfl
  · cases hplace
  all_goals cases hname

/-- The assignment to a member stays wrapped in the arguments of a call. -/
theorem wrapped_in_argument :
    ∃ lowered, compile {} (.ofSeed 0) "(f $a.b c)" = .ok lowered ∧
      lowered.body = [expressionStatement (callExpression (path "f")
        [expressionStatement (assignmentExpression (path "a.b") (path "c"))])] ∧
      WrappedIn lowered.body (assignmentExpression (path "a.b") (path "c")) := by
  have htokens : tokenize "(f $a.b c)" = .ok
      [⟨.mark .openParen, ⟨0, 1⟩⟩, ⟨.identifier "f", ⟨1, 2⟩⟩, ⟨.mark .assign, ⟨3, 4⟩⟩,
        ⟨.identifier "a.b", ⟨4, 7⟩⟩, ⟨.identifier "c", ⟨8, 9⟩⟩, ⟨.mark .closeParen, ⟨9, 10⟩⟩] :=
    eq_ok_of_toOption_eq_some (by decide +kernel)
  have hparse : parseSource "(f $a.b c)" =
      .ok [.call "f" [.assignment "a.b" (.identifier "c")]] := by
    refine parseSource_eq_ok_iff.2 ⟨_, htokens, parse_eq_ok_iff.2 ?_⟩
    exact .item (.call rfl rfl (.more (by simp)
      (.assignment rfl rfl (.identifier rfl) (by simp [Node.kind])) (.done rfl))
      (.inr (by simp))) .nil
  obtain ⟨lowered, hlower, hbody⟩ : ∃ lowered,
      Lowering.lowerProgram {} (.ofSeed 0) [.call "f" [.assignment "a.b" (.identifier "c")]] =
        some lowered ∧
      lowered.body = [expressionStatement (callExpression (path "f")
        [expressionStatement (assignmentExpression (path "a.b") (path "c"))])] := ⟨_, rfl, rfl⟩
  refine ⟨lowered, compile_eq_ok_iff.2 ⟨_, hparse, hlower⟩, hbody, ?_⟩
  rw [hbody]
  refine ⟨callExpression (path "f")
    [expressionStatement (assignmentExpression (path "a.b") (path "c"))], ?_, ?_⟩
  · simp [walkAll, walk]
  · simp [expressionSlots]

end LijsCompiler
