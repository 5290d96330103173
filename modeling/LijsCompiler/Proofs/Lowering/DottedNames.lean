import LijsCompiler.Proofs.Lowering.Declarations
import LijsCompiler.Proofs.Lexer.Spelling

/-!
# Names with dots in the output

A name with dots becomes a chain of members wherever it is used or assigned.  The name and the
parameters of a function are put into the output as they are written, dots included, and parameters
are recorded as declared names.  Nothing else brings a dot into an identifier of the output or into
the list of names (`lacks_iff_of_lowers`, `not_mem_introduced_iff_of_lowers`).
-/

namespace LijsCompiler

open ESTree

/-! ## Names without dots -/

namespace Name

theorem isDotted_eq_false_iff {name : String} : isDotted name = false ↔ '.' ∉ name.toList := by
  simp [isDotted]

theorem isDotted_of_mem_members {name segment : String} (h : segment ∈ members name) :
    isDotted segment = false := by
  obtain ⟨hsegment, -⟩ := List.mem_filter.1 h
  obtain ⟨piece, hpiece, rfl⟩ := List.mem_map.1 hsegment
  rw [isDotted_eq_false_iff, String.toList_ofList]
  exact Text.not_mem_of_mem_splitOn hpiece

theorem isDotted_tail (name : String) : isDotted (tail name) = false := by
  rw [isDotted_eq_false_iff, tail, String.toList_ofList, List.mem_reverse]
  intro hdot
  simpa using List.all_eq_true.1 List.all_takeWhile _ hdot

theorem not_mem_toDigits (n : Nat) : '.' ∉ Nat.toDigits 10 n := by
  intro hdot
  have hdigit : Char.isDigit '.' := Nat.isDigit_of_mem_toDigits (by decide) (by decide) hdot
  cases hdigit

theorem isDotted_loopIndex (depth : Nat) : isDotted (loopIndex depth) = false := by
  simp [isDotted_eq_false_iff, loopIndex, not_mem_toDigits]

end Name

theorem Stem.isDotted_numbered (stem : Stem) (n : Nat) :
    Name.isDotted (stem.numbered n) = false := by
  rw [Name.isDotted_eq_false_iff, toList_numbered, List.mem_append, not_or]
  constructor
  · obtain ⟨hidentifier, -⟩ := fault?_eq_none_iff.1 stem.valid
    intro hdot
    cases htext : stem.text.toList with
    | nil => simp [htext] at hdot
    | cons c cs =>
        rw [htext] at hidentifier hdot
        simp only [isIdentifier, Bool.and_eq_true, List.all_eq_true] at hidentifier
        have hchar : isStemChar '.' := by
          rcases List.mem_cons.1 hdot with rfl | hrest
          · exact hidentifier.1.1
          · exact hidentifier.2 _ hrest
        cases hchar
  · exact Name.not_mem_toDigits n

theorem Keystream.mem_alphabet_of_drawChar {s s' : Keystream} {limit : Nat} {c : Char}
    (h : s.drawChar limit = some (c, s')) : c ∈ alphabet := by
  induction limit generalizing s with
  | zero => cases h
  | succ limit ih =>
      rw [drawChar] at h
      dsimp only at h
      split at h
      · rename_i hchar
        cases h
        exact List.mem_of_getElem? hchar
      · exact ih h

theorem Keystream.mem_alphabet_of_drawChars {limit length : Nat} {s s' : Keystream}
    {cs : List Char} (h : s.drawChars limit length = some (cs, s')) : ∀ c ∈ cs, c ∈ alphabet := by
  induction length generalizing s cs with
  | zero =>
      cases h
      simp
  | succ length ih =>
      rw [drawChars] at h
      obtain ⟨⟨c, s₁⟩, hchar, h⟩ := Option.bind_eq_some_iff.1 h
      obtain ⟨⟨rest, s₂⟩, hrest, h⟩ := Option.bind_eq_some_iff.1 h
      cases h
      exact List.forall_mem_cons.2 ⟨mem_alphabet_of_drawChar hchar, ih hrest⟩

theorem Generator.isDotted_of_candidate? {patience : Nat} {g g' : Generator} {name : String}
    (h : g.candidate? patience = some (name, g')) : Name.isDotted name = false := by
  cases g with
  | counter stem next =>
      cases h
      exact stem.isDotted_numbered next
  | random length stream =>
      rw [candidate?] at h
      obtain ⟨⟨chars, stream'⟩, hchars, h⟩ := Option.bind_eq_some_iff.1 h
      cases h
      rw [Name.isDotted_eq_false_iff, String.toList_ofList]
      intro hdot
      exact absurd (Keystream.mem_alphabet_of_drawChars hchars _ hdot) (by decide)

/-- Temporaries have no dots. -/
theorem Registry.isDotted_of_fresh? {r r' : Registry} {name : String}
    (h : r.fresh? = some (name, r')) : Name.isDotted name = false := by
  unfold fresh? at h
  generalize r.searchLimit = limit at h
  induction limit generalizing r with
  | zero => cases h
  | succ limit ih =>
      rw [search] at h
      obtain ⟨⟨candidate, generator⟩, hcandidate, h⟩ := Option.bind_eq_some_iff.1 h
      dsimp only at h
      split at h
      · cases h
        exact Generator.isDotted_of_candidate? hcandidate
      · exact ih h

namespace Node

def parameters : Node → List String
  | function _ params _ => params
  | _ => []

def signature : Node → List String
  | function name params _ => name :: params
  | _ => []

/-- No node has the name in that part of it. -/
def Nowhere (part : Node → List String) (name : String) (nodes : List Node) : Prop :=
  ∀ node ∈ walkAll nodes, name ∉ part node

section Nowhere

variable {part : Node → List String} {name : String} {node : Node} {nodes others : List Node}

theorem nowhere_nil : Nowhere part name [] := by
  simp [Nowhere]

theorem nowhere_append :
    Nowhere part name (nodes ++ others) ↔ Nowhere part name nodes ∧ Nowhere part name others :=
  forall_mem_walkAll_append

theorem nowhere_cons :
    Nowhere part name (node :: nodes) ↔ Nowhere part name [node] ∧ Nowhere part name nodes :=
  forall_mem_walkAll_cons

theorem nowhere_singleton :
    Nowhere part name [node] ↔ name ∉ part node ∧ Nowhere part name node.children :=
  forall_mem_walkAll_singleton

end Nowhere

theorem isRooted_of_written {node : Node} {name : String}
    (h : WritesOnly Name.IsRooted [node]) (hwritten : node.written = [name]) :
    Name.IsRooted name ∧ WritesOnly Name.IsRooted node.children := by
  rwa [writesOnly_singleton, hwritten, List.forall_mem_singleton] at h

end Node

namespace Lowering

/-! ## Trees without a certain identifier -/

abbrev Lacks (name : String) (e : ESTree) : Prop := Everywhere (· ≠ identifier name) e

section Lacks

variable {name : String} (hname : Name.isDotted name)

theorem forall_mem_lacks_iff {nodes : List ESTree} :
    (∀ e ∈ nodes, Lacks name e) ↔ identifier name ∉ walkAll nodes := by
  rw [← forall_mem_walkAll]
  constructor
  · exact fun h hmem => h _ hmem rfl
  · rintro h node hnode rfl
    exact h hnode

theorem lacks_embed {place : Place} {e : ESTree} : Lacks name (place.embed e) ↔ Lacks name e := by
  cases place <;> simp [Place.embed]

theorem lacks_resultOf (e : ESTree) : Lacks name (resultOf e) ↔ Lacks name e := by
  unfold resultOf
  split
  · simp
  · split <;> simp

theorem lacks_testOf {check : Check} {l : ESTree} {rs : List ESTree} (hcheck : "indexOf" ≠ name)
    (hlength : rs.length = if check = .present then 0 else 1) :
    Lacks name (testOf check l rs.head?) ↔ ∀ e ∈ l :: rs, Lacks name e := by
  rcases rs with _ | ⟨x, _ | ⟨y, others⟩⟩
  · cases check <;> simp [testOf]
  · cases check with
    | equal | similar | contains => simp [testOf, member, hcheck]
    | present => simp at hlength
  · cases check <;> simp at hlength

theorem lacks_returnStatement {values : List ESTree} (hlength : values.length ≤ 1) :
    Lacks name (returnStatement values.head?) ↔ ∀ e ∈ values, Lacks name e := by
  rcases values with _ | ⟨value, _ | ⟨other, others⟩⟩
  · simp
  · simp
  · simp at hlength

/-- The name and the parameters of a function stand in the output as they are. -/
theorem lacks_functionDeclaration {f : String} {params : List String} {body : List Node}
    {ss : List ESTree} :
    Lacks name (functionDeclaration (identifier f) (params.map identifier) []
        (blockStatement (withResult body ss))) ↔
      name ∉ f :: params ∧ ∀ s ∈ ss, Lacks name s := by
  rw [← forall_mem_withResult lacks_resultOf body ss]
  simp only [everywhere_functionDeclaration, everywhere_identifier, everywhere_blockStatement,
    List.forall_mem_map]
  grind

include hname

theorem ne_of_isDotted {other : String} (h : Name.isDotted other = false) : other ≠ name := by
  rintro rfl
  rw [h] at hname
  cases hname

theorem lacks_identifier {other : String} (h : Name.isDotted other = false) :
    Lacks name (identifier other) := by
  simpa using ne_of_isDotted hname h

theorem lacks_foldl_member {members : List String}
    (hmembers : ∀ segment ∈ members, Name.isDotted segment = false) {object : ESTree}
    (h : Lacks name object) : Lacks name (members.foldl member object) := by
  induction members generalizing object with
  | nil => exact h
  | cons segment members ih =>
      rw [List.forall_mem_cons] at hmembers
      apply ih hmembers.2
      simpa [member, ne_of_isDotted hname hmembers.1] using h

/-- The chain of a name has no identifier with a dot, unless the name is of dots only. -/
theorem lacks_path {other : String} (h : Name.IsRooted other) : Lacks name (path other) := by
  by_cases hroot : Name.root other = ""
  · obtain rfl := Name.eq_empty_of_root_eq_empty h hroot
    exact lacks_identifier hname rfl
  · obtain ⟨others, hmembers⟩ := Name.exists_members_eq_root_cons hroot
    have hundotted : ∀ segment ∈ Name.root other :: others, Name.isDotted segment = false := by
      rw [← hmembers]
      exact fun _ => Name.isDotted_of_mem_members
    rw [List.forall_mem_cons] at hundotted
    unfold path
    rw [hmembers]
    exact lacks_foldl_member hname hundotted.2 (lacks_identifier hname hundotted.1)

theorem lacks_declare {other : String} (h : Name.isDotted other = false) {init : ESTree} :
    Lacks name (declare other init) ↔ Lacks name init := by
  have hdeclare : declare other init ≠ identifier name := by simp [declare]
  simp [hdeclare, ne_of_isDotted hname h]

theorem lacks_bound {other : String} (h : Name.IsRooted other) {init : ESTree} :
    Lacks name (bound other init) ↔ Lacks name init := by
  unfold bound
  split
  · simp [lacks_path hname h]
  · rename_i hplain
    exact lacks_declare hname (by simpa using hplain)

theorem lacks_require {o : Options} (h : Name.IsRooted o.requireCallee) (text : String) :
    Lacks name (require o text) := by
  simp [require, ESTree.string, lacks_path hname h]

theorem lacks_exported {o : Options} (h : Name.IsRooted o.exportsTarget) {other : String}
    (hother : Name.IsRooted other) : Lacks name (exported o other) := by
  simp [exported, member, lacks_path hname h, lacks_path hname hother,
    ne_of_isDotted hname (Name.isDotted_tail other)]

theorem lacks_countingLoop {source : ESTree} {depth : Nat} {body : List ESTree} :
    Lacks name (countingLoop source (loopIndex depth) body) ↔
      Lacks name source ∧ ∀ s ∈ body, Lacks name s := by
  have hindex := ne_of_isDotted hname (Name.isDotted_loopIndex depth)
  have hitem : Lacks name (declare itemName (index source (identifier (loopIndex depth)))) ↔
      Lacks name source := by
    rw [lacks_declare hname (by decide)]
    simp [index, hindex]
  have hlength : "length" ≠ name := ne_of_isDotted hname (by decide)
  have hinit : Lacks name (declare (loopIndex depth) (number (.zero false) "0")) := by
    rw [lacks_declare hname (Name.isDotted_loopIndex depth)]
    simp [number]
  simp [countingLoop, member, hitem, hinit, hindex, hlength]

end Lacks

/-! ## What functions bring in -/

theorem nowhere_node_iff {part : Node → List String} {name : String} {place : Place} {node : Node} :
    Node.Nowhere part name (Form.node place node).nodes ↔
      name ∉ part node ∧ Node.Nowhere part name node.children :=
  Node.nowhere_singleton

/-- Where a construct has nothing in the part at hand, its parts decide. -/
theorem nowhere_node_iff_of_eq_nil {part : Node → List String} {name : String} {place : Place}
    {node : Node} (h : part node = []) :
    Node.Nowhere part name (Form.node place node).nodes ↔
      Node.Nowhere part name node.children := by
  simp [nowhere_node_iff, h]

section Lowers

variable {o : Options} {form : Form} {depth : Nat} {r r' : Registry} {es hs : List ESTree}
  {ws : List Warning} {name : String} (hname : Name.isDotted name)

include hname

/-- A name with dots is an identifier of the output exactly if a function has it as its name or as
a parameter. -/
theorem lacks_iff_of_lowers (hrequire : Name.IsRooted o.requireCallee)
    (hexports : Name.IsRooted o.exportsTarget) (h : Lowers o form depth r es hs ws r')
    (hwf : Node.WellFormed form.nodes) (hrooted : Node.WritesOnly Name.IsRooted form.nodes) :
    ((∀ e ∈ hs, Lacks name e) ∧ ∀ e ∈ es, Lacks name e) ↔
      Node.Nowhere Node.signature name form.nodes := by
  have hindexOf : "indexOf" ≠ name := ne_of_isDotted hname (by decide)
  induction h with
  | identifier =>
      obtain ⟨hpath, -⟩ := Node.isRooted_of_written hrooted rfl
      simp [Form.nodes, Node.nowhere_singleton, Node.signature, Node.children, Node.nowhere_nil,
        lacks_path hname hpath]
  | integer | float | string =>
      simp [Form.nodes, Node.nowhere_singleton, Node.signature, Node.children, Node.nowhere_nil,
        numberLiteral, number, ESTree.string]
  | useModule =>
      simp [Form.nodes, Node.nowhere_singleton, Node.signature, Node.children, Node.nowhere_nil,
        lacks_embed, lacks_require hname hrequire]
  | useModuleAs =>
      obtain ⟨hbinding, -⟩ := Node.isRooted_of_written hrooted rfl
      simp [Form.nodes, Node.nowhere_singleton, Node.signature, Node.children, Node.nowhere_nil,
        lacks_bound hname hbinding, lacks_require hname hrequire]
  | exportName =>
      obtain ⟨hexported, -⟩ := Node.isRooted_of_written hrooted rfl
      simp [Form.nodes, Node.nowhere_singleton, Node.signature, Node.children, Node.nowhere_nil,
        lacks_embed, lacks_exported hname hexports hexported]
  | create =>
      obtain ⟨hbound, -⟩ := Node.isRooted_of_written hrooted rfl
      rw [Form.nodes, List.forall_mem_singleton, lacks_bound hname hbound]
      simp [Node.nowhere_singleton, Node.signature, Node.children, Node.nowhere_nil]
  | array _ ih | arithmetic _ ih =>
      obtain ⟨-, hparts⟩ := Node.writesOnly_singleton.1 hrooted
      rw [nowhere_node_iff_of_eq_nil rfl]
      refine Iff.trans ?_ (ih (wellFormed_children hwf) hparts)
      simp [lacks_embed]
  | get _ ih | set _ ih | call _ ih =>
      obtain ⟨hpath, hparts⟩ := Node.isRooted_of_written hrooted rfl
      rw [nowhere_node_iff_of_eq_nil rfl]
      refine Iff.trans ?_ (ih (wellFormed_children hwf) hparts)
      simp [lacks_embed, lacks_path hname hpath, index]
  | assignment _ ih =>
      obtain ⟨hbound, hparts⟩ := Node.isRooted_of_written hrooted rfl
      rw [nowhere_node_iff_of_eq_nil rfl]
      refine Iff.trans ?_ (ih (wellFormed_children hwf) hparts)
      simp [lacks_bound hname hbound]
  | @result _ value _ _ _ es _ _ hvalue ih =>
      obtain ⟨-, hparts⟩ := Node.writesOnly_singleton.1 hrooted
      rw [nowhere_node_iff_of_eq_nil rfl]
      refine Iff.trans ?_ (ih (wellFormed_children hwf) hparts)
      have hlength : es.length ≤ 1 := by
        rw [length_of_lowers_values hvalue]
        cases value <;> simp
      rw [List.forall_mem_singleton, lacks_returnStatement hlength]
  | function _ ih =>
      obtain ⟨-, hparts⟩ := Node.writesOnly_singleton.1 hrooted
      rw [nowhere_node_iff]
      refine Iff.trans ?_ (and_congr Iff.rfl (ih (wellFormed_children hwf) hparts))
      rw [List.forall_mem_singleton, lacks_functionDeclaration]
      simp [Node.signature]
  | iteratorArray _ hfresh _ ihsource ihbody =>
      obtain ⟨-, hparts⟩ := Node.writesOnly_singleton.1 hrooted
      obtain ⟨hsource, hbody⟩ := Node.writesOnly_cons.1 hparts
      obtain ⟨hwfsource, hwfbody⟩ := Node.wellFormed_cons.1 (wellFormed_children hwf)
      have hdrawn := Registry.isDotted_of_fresh? hfresh
      rw [nowhere_node_iff_of_eq_nil rfl, Node.children, Node.nowhere_cons]
      refine Iff.trans ?_ (and_congr (ihsource hwfsource hsource) (ihbody hwfbody hbody))
      simp only [List.forall_mem_append, List.forall_mem_singleton, lacks_declare hname hdrawn,
        lacks_countingLoop hname, lacks_identifier hname hdrawn]
      grind
  | iterator _ _ _ ihsource ihbody =>
      obtain ⟨-, hparts⟩ := Node.writesOnly_singleton.1 hrooted
      obtain ⟨hsource, hbody⟩ := Node.writesOnly_cons.1 hparts
      obtain ⟨hwfsource, hwfbody⟩ := Node.wellFormed_cons.1 (wellFormed_children hwf)
      rw [nowhere_node_iff_of_eq_nil rfl, Node.children, Node.nowhere_cons]
      refine Iff.trans ?_ (and_congr (ihsource hwfsource hsource) (ihbody hwfbody hbody))
      simp only [List.forall_mem_singleton, lacks_countingLoop hname]
      grind
  | conditional hoperands _ ihoperands ihpass =>
      obtain ⟨-, hparts⟩ := Node.writesOnly_singleton.1 hrooted
      rw [Node.children, Node.writesOnly_append, Node.writesOnly_append] at hparts
      obtain ⟨hright, hwfleft, hwfpass, -⟩ := wellFormed_conditional hwf
      have hlength := length_operands_of_lowers hright hoperands
      rw [nowhere_node_iff_of_eq_nil rfl, Node.children, Node.nowhere_append, Node.nowhere_append]
      refine Iff.trans ?_ (and_congr (and_congr (ihoperands hwfleft hparts.1.1)
        (ihpass hwfpass hparts.1.2)) Iff.rfl)
      simp only [List.forall_mem_singleton, everywhere_ifStatement, everywhere_blockStatement,
        lacks_testOf hindexOf hlength]
      grind [Node.nowhere_nil]
  | conditionalElse hoperands _ _ ihoperands ihpass ihfail =>
      obtain ⟨-, hparts⟩ := Node.writesOnly_singleton.1 hrooted
      rw [Node.children, Node.writesOnly_append, Node.writesOnly_append] at hparts
      obtain ⟨hright, hwfleft, hwfpass, hwffail⟩ := wellFormed_conditional hwf
      have hlength := length_operands_of_lowers hright hoperands
      rw [nowhere_node_iff_of_eq_nil rfl, Node.children, Node.nowhere_append, Node.nowhere_append]
      refine Iff.trans ?_ (and_congr (and_congr (ihoperands hwfleft hparts.1.1)
        (ihpass hwfpass hparts.1.2)) (ihfail hwffail hparts.2))
      simp only [List.forall_mem_singleton, everywhere_ifStatement, everywhere_blockStatement,
        lacks_testOf hindexOf hlength, Option.mem_some_iff, forall_eq']
      grind
  | noValues | emptyBlock => simp [Form.nodes, Node.nowhere_nil]
  | values _ _ ihnode ihnodes | block _ _ ihnode ihnodes =>
      obtain ⟨hnode, hnodes⟩ := Node.writesOnly_cons.1 hrooted
      obtain ⟨hwfnode, hwfnodes⟩ := Node.wellFormed_cons.1 hwf
      rw [Form.nodes, Node.nowhere_cons]
      refine Iff.trans ?_ (and_congr (ihnode hwfnode hnode) (ihnodes hwfnodes hnodes))
      simp only [List.forall_mem_append, List.forall_mem_cons]
      grind

theorem mem_introduced_bind_iff (r : Registry) (other : String) :
    name ∈ (r.bind other).introduced ↔ name ∈ r.introduced := by
  rw [Registry.mem_introduced_bind, or_iff_left]
  rintro ⟨hother, rfl⟩
  exact ne_of_isDotted hname hother rfl

theorem mem_introduced_define_iff (r : Registry) (f : String) (params : List String) :
    name ∈ (r.define f params).introduced ↔ name ∈ r.introduced ∨ name ∈ params := by
  rw [Registry.mem_introduced_define, ← or_assoc, ← Registry.mem_introduced_bind,
    mem_introduced_bind_iff hname]

/-- Of the names with dots the registry gains the parameters of functions. -/
theorem not_mem_introduced_iff_of_lowers (h : Lowers o form depth r es hs ws r') :
    name ∉ r'.introduced ↔
      name ∉ r.introduced ∧ Node.Nowhere Node.parameters name form.nodes := by
  induction h with
  | identifier | integer | float | string | useModule | exportName | create | useModuleAs =>
      simp [Form.nodes, Node.nowhere_singleton, Node.parameters, Node.children, Node.nowhere_nil,
        mem_introduced_bind_iff hname]
  | array _ ih | get _ ih | set _ ih | call _ ih | arithmetic _ ih | result _ ih =>
      rw [ih, nowhere_node_iff_of_eq_nil rfl]
      rfl
  | assignment _ ih =>
      rw [mem_introduced_bind_iff hname, ih, nowhere_node_iff_of_eq_nil rfl]
      rfl
  | function _ ih =>
      rw [ih, mem_introduced_define_iff hname, not_or, and_assoc, nowhere_node_iff]
      rfl
  | iteratorArray _ hfresh _ ihsource ihbody =>
      have hdrawn := ne_of_isDotted hname (Registry.isDotted_of_fresh? hfresh)
      rw [ihbody, (Registry.draws_of_fresh? hfresh).introduced, List.mem_append,
        List.mem_singleton, or_iff_left hdrawn.symm, ihsource, and_assoc,
        nowhere_node_iff_of_eq_nil rfl, Node.children, Node.nowhere_cons]
      rfl
  | iterator _ _ _ ihsource ihbody =>
      rw [ihbody, ihsource, and_assoc, nowhere_node_iff_of_eq_nil rfl, Node.children,
        Node.nowhere_cons]
      rfl
  | conditional _ _ ihoperands ihpass =>
      rw [ihpass, ihoperands, and_assoc, nowhere_node_iff_of_eq_nil rfl, Node.children,
        Node.nowhere_append, Node.nowhere_append, Option.getD_none, and_iff_left Node.nowhere_nil]
      rfl
  | conditionalElse _ _ _ ihoperands ihpass ihfail =>
      rw [ihfail, ihpass, ihoperands, and_assoc, and_assoc, nowhere_node_iff_of_eq_nil rfl,
        Node.children, Node.nowhere_append, Node.nowhere_append, and_assoc]
      rfl
  | noValues | emptyBlock => simp [Form.nodes, Node.nowhere_nil]
  | values _ _ ihnode ihnodes | block _ _ ihnode ihnodes =>
      rw [ihnodes, ihnode, and_assoc]
      simp only [Form.nodes, ← Node.nowhere_cons]

end Lowers

end Lowering

/-- If the names with dots that something has are those in a part of the program, then it has none
exactly if there is none in that part. -/
theorem undotted_iff {Has : String → Prop} {part : Node → List String} {program : List Node}
    (h : ∀ name, Name.isDotted name → (¬ Has name ↔ Node.Nowhere part name program)) :
    (∀ name, Has name → Name.isDotted name = false) ↔
      ∀ node ∈ Node.walkAll program, ∀ name ∈ part node, Name.isDotted name = false := by
  constructor
  · intro hnone node hnode name hname
    cases hdotted : Name.isDotted name with
    | false => rfl
    | true =>
        have hhas : ¬ Has name := fun hhas => by simp [hnone name hhas] at hdotted
        exact absurd hname ((h name hdotted).1 hhas node hnode)
  · intro hnone name hhas
    cases hdotted : Name.isDotted name with
    | false => rfl
    | true =>
        have hnowhere : Node.Nowhere part name program := by
          intro node hnode hname
          simp [hnone node hnode name hname] at hdotted
        exact absurd hhas ((h name hdotted).2 hnowhere)

/-- The default configuration expands every name with dots but those of functions and parameters:
the tree of a compiled source has an identifier with a dot exactly if some function has a dot in its
name or in a parameter, and the list of declared names has an entry with a dot exactly if some
function has a dot in a parameter. -/
theorem undotted_of_compile_iff {supply : Supply} {source : String} {program : List Node}
    {lowered : Lowered} (hparse : parseSource source = .ok program)
    (h : compile {} supply source = .ok lowered) :
    ((∀ name, identifier name ∈ walkAll lowered.body → Name.isDotted name = false) ↔
        ∀ node ∈ Node.walkAll program, ∀ name ∈ node.signature, Name.isDotted name = false) ∧
      ((∀ name ∈ lowered.names, Name.isDotted name = false) ↔
        ∀ node ∈ Node.walkAll program, ∀ name ∈ node.parameters, Name.isDotted name = false) := by
  obtain ⟨program', hparse', hlower⟩ := compile_eq_ok_iff.1 h
  obtain rfl : program' = program := by
    rw [hparse'] at hparse
    exact Except.ok.inj hparse
  obtain ⟨tokens, -, htree⟩ := parseSource_eq_ok_iff.1 hparse
  obtain ⟨r, hlowers, hnames, -⟩ := Lowering.lowers_of_lowerProgram hlower
  have hstart := Lowering.introduced_initialContext {} supply program'
  constructor
  · apply undotted_iff
    intro name hname
    have hlacks := Lowering.lacks_iff_of_lowers hname (by decide) (by decide) hlowers
      (Node.wellFormed_of_parse htree) (Node.writesOnly_isRooted hparse)
    rwa [and_iff_right (by simp), Lowering.forall_mem_lacks_iff] at hlacks
  · apply undotted_iff
    intro name hname
    have hadded := Lowering.not_mem_introduced_iff_of_lowers hname hlowers
    rwa [hstart, and_iff_right (by simp), ← hnames] at hadded

/-- Names with dots are used and assigned in a function without dots in its name and parameters. -/
theorem undotted_of_compile_members :
    ∃ lowered, compile {} (.ofSeed 0) "def f[x]\x7b$x.y z.w\x7d" = .ok lowered ∧
      (∀ name, identifier name ∈ walkAll lowered.body → Name.isDotted name = false) ∧
      ∀ name ∈ lowered.names, Name.isDotted name = false := by
  have hprogram : (parseSource "def f[x]\x7b$x.y z.w\x7d").toOption.map (fun program =>
      decide (∀ node ∈ Node.walkAll program, ∀ name ∈ node.signature ++ node.parameters,
        Name.isDotted name = false)) = some true := by
    decide +kernel
  have houtput : (compile {} (.ofSeed 0) "def f[x]\x7b$x.y z.w\x7d").toOption.map (·.names) =
      some ["f", "x"] := by
    decide +kernel
  obtain ⟨program, hparse, hundotted⟩ := Option.map_eq_some_iff.1 hprogram
  simp only [decide_eq_true_eq, List.forall_mem_append] at hundotted
  obtain ⟨lowered, hlowered, -⟩ := Option.map_eq_some_iff.1 houtput
  have hcompile := eq_ok_of_toOption_eq_some hlowered
  obtain ⟨htree, hlist⟩ := undotted_of_compile_iff (eq_ok_of_toOption_eq_some hparse) hcompile
  refine ⟨lowered, hcompile, htree.2 ?_, hlist.2 ?_⟩
  · exact fun node hnode => (hundotted node hnode).1
  · exact fun node hnode => (hundotted node hnode).2

/-- The name and the parameter of a function stay as they are, and the parameter is listed as a
declared name. -/
theorem isDotted_function_survives :
    ∃ lowered, compile {} (.ofSeed 0) "def a.b[c.d]\x7b\x7d" = .ok lowered ∧
      identifier "a.b" ∈ walkAll lowered.body ∧ identifier "c.d" ∈ walkAll lowered.body ∧
      lowered.names = ["c.d"] ∧ Name.isDotted "a.b" ∧ Name.isDotted "c.d" := by
  have hrun : (compile {} (.ofSeed 0) "def a.b[c.d]\x7b\x7d").toOption.map
      (fun lowered => ((walkAll lowered.body).filterMap name?, lowered.names)) =
        some (["a.b", "c.d"], ["c.d"]) := by
    decide +kernel
  obtain ⟨lowered, hlowered, hpair⟩ := Option.map_eq_some_iff.1 hrun
  obtain ⟨hidentifiers, hnames⟩ := Prod.mk.inj hpair
  have hmem (name : String) (h : name ∈ ["a.b", "c.d"]) :
      identifier name ∈ walkAll lowered.body := by
    have hfilter : name ∈ (walkAll lowered.body).filterMap name? := by rwa [hidentifiers]
    obtain ⟨e, he, hname⟩ := List.mem_filterMap.1 hfilter
    cases e with
    | identifier other =>
        obtain rfl : other = name := Option.some.inj hname
        exact he
    | _ => cases hname
  exact ⟨lowered, eq_ok_of_toOption_eq_some hlowered, hmem _ (by simp), hmem _ (by simp), hnames,
    by decide, by decide⟩

end LijsCompiler
