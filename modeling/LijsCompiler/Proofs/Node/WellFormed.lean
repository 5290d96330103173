import LijsCompiler.Proofs.Node.Children
import LijsCompiler.Proofs.Parser.Completeness

/-!
# Well-formed trees

The type of nodes has more trees than texts can write.  `wellFormedHere` holds what a text enforces
at one node, and a program is well-formed when it holds at every node.  Parsed programs are
well-formed (`wellFormed_of_parse`).
-/

namespace LijsCompiler.Node

/-- What every text enforces at a node: an assigned value is no assignment, a key is a name or a
string, a check has a second operand exactly if it is not `exists`, and an operator's name with two
or more arguments makes no call. -/
def wellFormedHere : Node → Bool
  | assignment _ value => value.kind != .assignment
  | get _ key | set _ key _ => key.kind == .identifier || key.kind == .string
  | conditional check _ right _ _ => right.isSome == (check != .present)
  | call name args => name ∉ Arithmetic.all.map Arithmetic.name || args.length ≤ 1
  | _ => true

def WellFormed (program : List Node) : Prop := ∀ node ∈ walkAll program, node.wellFormedHere

instance (program : List Node) : Decidable (WellFormed program) :=
  inferInstanceAs (Decidable (∀ node ∈ walkAll program, node.wellFormedHere))

theorem wellFormed_nil : WellFormed [] := by
  simp [WellFormed]

theorem wellFormed_append {nodes others : List Node} :
    WellFormed (nodes ++ others) ↔ WellFormed nodes ∧ WellFormed others :=
  forall_mem_walkAll_append

theorem wellFormed_cons {node : Node} {nodes : List Node} :
    WellFormed (node :: nodes) ↔ WellFormed [node] ∧ WellFormed nodes :=
  forall_mem_walkAll_cons

theorem wellFormed_of_mem {node : Node} {nodes : List Node} (h : WellFormed nodes)
    (hmem : node ∈ nodes) : WellFormed [node] := by
  obtain ⟨before, after, rfl⟩ := List.append_of_mem hmem
  exact (wellFormed_cons.1 (wellFormed_append.1 h).2).1

/-- A node is well-formed if it is so here and its parts are. -/
theorem wellFormed_singleton {node : Node} :
    WellFormed [node] ↔ node.wellFormedHere ∧ WellFormed node.children :=
  forall_mem_walkAll_singleton

/-! ## Parsed programs -/

theorem kind_of_keyOf? {k : TokenKind} {key : Node} (h : keyOf? k = some key) :
    key.kind = .identifier ∨ key.kind = .string := by
  rcases eq_of_keyOf? h with ⟨name, -, rfl⟩ | ⟨text, -, rfl⟩
  · exact .inl rfl
  · exact .inr rfl

theorem wellFormed_of_keyOf? {k : TokenKind} {key : Node} (h : keyOf? k = some key) :
    WellFormed [key] := by
  rcases eq_of_keyOf? h with ⟨name, -, rfl⟩ | ⟨text, -, rfl⟩ <;>
    simp [wellFormed_singleton, wellFormedHere, children, wellFormed_nil]

theorem isSome_of_readsOperand {check : Check} {ts rest : List Token} {right : List Node}
    (h : Reads (.operand check) ts right rest) :
    right.head?.isSome = (check != .present) ∧ right.head?.toList = right := by
  cases h with
  | operand hcheck _ =>
      refine ⟨?_, rfl⟩
      cases check <;> simp [Check.takesRight] at hcheck ⊢
  | noOperand hcheck =>
      refine ⟨?_, rfl⟩
      cases check <;> simp [Check.takesRight] at hcheck ⊢

theorem not_mem_names_of_ofName? {name : String} (h : Arithmetic.ofName? name = none) :
    name ∉ Arithmetic.all.map Arithmetic.name := by
  intro hmem
  obtain ⟨op, hop, rfl⟩ := List.mem_map.1 hmem
  have hne := List.find?_eq_none.1 h op hop
  simp at hne

theorem wellFormed_of_reads {form : Form} {ts rest : List Token} {nodes : List Node}
    (h : Reads form ts nodes rest) : WellFormed nodes := by
  induction h with
  | trivia | done | noOperand => exact wellFormed_nil
  | identifier | integer | float | string | create | useModule | useModuleAs | exportName
  | resultAlone => simp [wellFormed_singleton, wellFormedHere, children, wellFormed_nil]
  | array _ _ ih => exact wellFormed_singleton.2 ⟨rfl, ih⟩
  | assignment _ _ _ hkind ih => exact wellFormed_singleton.2 ⟨by simpa [wellFormedHere], ih⟩
  | get _ _ hkey =>
      exact wellFormed_singleton.2
        ⟨by simpa [wellFormedHere] using kind_of_keyOf? hkey, wellFormed_of_keyOf? hkey⟩
  | set _ _ hkey _ ih =>
      exact wellFormed_singleton.2
        ⟨by simpa [wellFormedHere] using kind_of_keyOf? hkey,
          wellFormed_cons.2 ⟨wellFormed_of_keyOf? hkey, ih⟩⟩
  | function _ _ _ _ _ ih => exact wellFormed_singleton.2 ⟨rfl, ih⟩
  | call _ _ _ hcall ih =>
      refine wellFormed_singleton.2 ⟨?_, ih⟩
      rcases hcall with hname | hlength
      · simp [wellFormedHere, not_mem_names_of_ofName? hname]
      · simp [wellFormedHere, hlength]
  | arithmetic _ _ _ _ ih => exact wellFormed_singleton.2 ⟨rfl, ih⟩
  | iterator _ _ _ ihsource ihbody =>
      exact wellFormed_singleton.2 ⟨rfl, wellFormed_cons.2 ⟨ihsource, ihbody⟩⟩
  | @conditional t c rest ts₁ ts₂ ts₃ check left right pass _ _ _ hright _ _
      ihleft ihright ihpass =>
      obtain ⟨hsome, hlist⟩ := isSome_of_readsOperand hright
      refine wellFormed_singleton.2 ⟨by simpa [wellFormedHere] using hsome, ?_⟩
      have hparts : WellFormed (left :: (right ++ pass)) :=
        wellFormed_cons.2 ⟨ihleft, wellFormed_append.2 ⟨ihright, ihpass⟩⟩
      simpa [children, hlist] using hparts
  | @conditionalElse t c e rest ts₁ ts₂ ts₃ ts₄ check left right pass fail _ _ _ hright _ _ _
      ihleft ihright ihpass ihfail =>
      obtain ⟨hsome, hlist⟩ := isSome_of_readsOperand hright
      refine wellFormed_singleton.2 ⟨by simpa [wellFormedHere] using hsome, ?_⟩
      have hbranches : WellFormed (pass ++ fail) := wellFormed_append.2 ⟨ihpass, ihfail⟩
      have hparts : WellFormed (left :: (right ++ (pass ++ fail))) :=
        wellFormed_cons.2 ⟨ihleft, wellFormed_append.2 ⟨ihright, hbranches⟩⟩
      simpa [children, hlist] using hparts
  | @result t rest after value _ _ hvalue ih =>
      refine wellFormed_singleton.2 ⟨rfl, ?_⟩
      cases value with
      | nil => exact wellFormed_nil
      | cons first others => exact (wellFormed_cons.1 ih).1
  | more _ _ _ ihfirst ihnodes => exact wellFormed_append.2 ⟨ihfirst, ihnodes⟩
  | braces _ _ ih | single _ _ ih | operand _ _ ih => exact ih

theorem wellFormed_of_readsProgram {ts : List Token} {program : List Node}
    (h : ReadsProgram ts program) : WellFormed program := by
  induction h with
  | nil => exact wellFormed_nil
  | item hfirst _ ih => exact wellFormed_append.2 ⟨wellFormed_of_reads hfirst, ih⟩

/-- Parsed programs are well-formed. -/
theorem wellFormed_of_parse {ts : List Token} {program : List Node}
    (h : parse ts = .ok program) : WellFormed program :=
  wellFormed_of_readsProgram (parse_eq_ok_iff.1 h)

end LijsCompiler.Node
