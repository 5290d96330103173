import LijsCompiler.Compile
import LijsCompiler.Proofs.ESTree.Variables
import LijsCompiler.Proofs.Lexer.Tokenization
import LijsCompiler.Proofs.Node.WellFormed

/-!
# The names of a parsed program

Every name that a parsed program writes is the text of a name token.  Such a text begins with a
letter, so no name of a source begins with a dot (`writesOnly_isRooted`).
-/

namespace LijsCompiler

def Token.NamesOnly (P : String → Prop) (ts : List Token) : Prop :=
  ∀ t ∈ ts, ∀ name, t.kind = .identifier name → P name

theorem Token.namesOnly_cons {P : String → Prop} {t : Token} {ts : List Token} :
    NamesOnly P (t :: ts) ↔ (∀ name, t.kind = .identifier name → P name) ∧ NamesOnly P ts :=
  List.forall_mem_cons

namespace Node

/-- The names that a construct itself writes, its parts apart, with their dots. -/
def written : Node → List String
  | identifier name | assignment name _ | create name | get name _ | set name _ _
  | exportName name | call name _ => [name]
  | useModule _ (some binding) => [binding]
  | function name params _ => name :: params
  | _ => []

def WritesOnly (P : String → Prop) (nodes : List Node) : Prop :=
  ∀ node ∈ walkAll nodes, ∀ name ∈ node.written, P name

section WritesOnly

variable {P : String → Prop}

theorem writesOnly_nil : WritesOnly P [] := by
  simp [WritesOnly]

theorem writesOnly_append {nodes others : List Node} :
    WritesOnly P (nodes ++ others) ↔ WritesOnly P nodes ∧ WritesOnly P others :=
  forall_mem_walkAll_append

theorem writesOnly_cons {node : Node} {nodes : List Node} :
    WritesOnly P (node :: nodes) ↔ WritesOnly P [node] ∧ WritesOnly P nodes :=
  forall_mem_walkAll_cons

theorem writesOnly_singleton {node : Node} :
    WritesOnly P [node] ↔ (∀ name ∈ node.written, P name) ∧ WritesOnly P node.children :=
  forall_mem_walkAll_singleton

theorem writesOnly_of_keyOf? {k : TokenKind} {key : Node} (hkey : keyOf? k = some key)
    (h : ∀ name, k = .identifier name → P name) : WritesOnly P [key] := by
  rcases eq_of_keyOf? hkey with ⟨name, rfl, rfl⟩ | ⟨text, -, rfl⟩
  · simpa [writesOnly_singleton, written, children, writesOnly_nil] using h
  · simp [writesOnly_singleton, written, children, writesOnly_nil]

theorem writesOnly_of_readsParams {ts rest : List Token} {params : List String}
    (h : ReadsParams ts params rest) (hts : Token.NamesOnly P ts) :
    (∀ name ∈ params, P name) ∧ Token.NamesOnly P rest := by
  induction h with
  | close _ => exact ⟨by simp, (Token.namesOnly_cons.1 hts).2⟩
  | name hname _ ih =>
      rw [Token.namesOnly_cons] at hts
      rw [List.forall_mem_cons]
      exact ⟨⟨hts.1 _ hname, (ih hts.2).1⟩, (ih hts.2).2⟩
  | trivia _ _ ih => exact ih (Token.namesOnly_cons.1 hts).2

/-- What holds of the name tokens in front holds of the names that are read from them. -/
theorem writesOnly_of_reads {form : Form} {ts rest : List Token} {nodes : List Node}
    (h : Reads form ts nodes rest) (hts : Token.NamesOnly P ts) :
    WritesOnly P nodes ∧ Token.NamesOnly P rest := by
  induction h with
  | noOperand => exact ⟨writesOnly_nil, hts⟩
  | trivia | done => exact ⟨writesOnly_nil, (Token.namesOnly_cons.1 hts).2⟩
  | identifier hname =>
      rw [Token.namesOnly_cons] at hts
      exact ⟨writesOnly_singleton.2 ⟨by simpa [written] using hts.1 _ hname, writesOnly_nil⟩, hts.2⟩
  | integer | float | string | resultAlone =>
      rw [Token.namesOnly_cons] at hts
      exact ⟨writesOnly_singleton.2 ⟨by simp [written], writesOnly_nil⟩, hts.2⟩
  | useModule =>
      rw [Token.namesOnly_cons, Token.namesOnly_cons] at hts
      exact ⟨writesOnly_singleton.2 ⟨by simp [written], writesOnly_nil⟩, hts.2.2⟩
  | useModuleAs _ _ _ hbinding =>
      simp only [Token.namesOnly_cons] at hts
      obtain ⟨-, -, -, hname, hrest⟩ := hts
      refine ⟨writesOnly_singleton.2 ⟨?_, writesOnly_nil⟩, hrest⟩
      simpa [written] using hname _ hbinding
  | create _ hname | exportName _ hname =>
      rw [Token.namesOnly_cons, Token.namesOnly_cons] at hts
      refine ⟨writesOnly_singleton.2 ⟨?_, writesOnly_nil⟩, hts.2.2⟩
      simpa [written] using hts.2.1 _ hname
  | array _ _ ih =>
      obtain ⟨helements, hafter⟩ := ih (Token.namesOnly_cons.1 hts).2
      exact ⟨writesOnly_singleton.2 ⟨by simp [written], helements⟩, hafter⟩
  | assignment _ hname _ _ ih =>
      rw [Token.namesOnly_cons, Token.namesOnly_cons] at hts
      obtain ⟨hvalue, hafter⟩ := ih hts.2.2
      refine ⟨writesOnly_singleton.2 ⟨?_, hvalue⟩, hafter⟩
      simpa [written] using hts.2.1 _ hname
  | get _ hname hkey =>
      simp only [Token.namesOnly_cons] at hts
      obtain ⟨-, hn, hk, hrest⟩ := hts
      refine ⟨writesOnly_singleton.2 ⟨?_, writesOnly_of_keyOf? hkey hk⟩, hrest⟩
      simpa [written] using hn _ hname
  | set _ hname hkey _ ih =>
      simp only [Token.namesOnly_cons] at hts
      obtain ⟨-, hn, hk, hrest⟩ := hts
      obtain ⟨hvalue, hafter⟩ := ih hrest
      have hparts := writesOnly_cons.2 ⟨writesOnly_of_keyOf? hkey hk, hvalue⟩
      refine ⟨writesOnly_singleton.2 ⟨?_, hparts⟩, hafter⟩
      simpa [written] using hn _ hname
  | function _ hname _ hparams _ ih =>
      simp only [Token.namesOnly_cons] at hts
      obtain ⟨-, hn, -, hrest⟩ := hts
      obtain ⟨hall, hinner⟩ := writesOnly_of_readsParams hparams hrest
      obtain ⟨hbody, hafter⟩ := ih hinner
      refine ⟨writesOnly_singleton.2 ⟨?_, hbody⟩, hafter⟩
      rw [written, List.forall_mem_cons]
      exact ⟨hn _ hname, hall⟩
  | call _ hname _ _ ih =>
      rw [Token.namesOnly_cons, Token.namesOnly_cons] at hts
      obtain ⟨hargs, hafter⟩ := ih hts.2.2
      refine ⟨writesOnly_singleton.2 ⟨?_, hargs⟩, hafter⟩
      simpa [written] using hts.2.1 _ hname
  | arithmetic _ _ _ _ ih =>
      rw [Token.namesOnly_cons, Token.namesOnly_cons] at hts
      obtain ⟨hargs, hafter⟩ := ih hts.2.2
      exact ⟨writesOnly_singleton.2 ⟨by simp [written], hargs⟩, hafter⟩
  | iterator _ _ _ ihsource ihbody =>
      obtain ⟨hsource, hinner⟩ := ihsource (Token.namesOnly_cons.1 hts).2
      obtain ⟨hbody, hafter⟩ := ihbody hinner
      have hparts := writesOnly_cons.2 ⟨hsource, hbody⟩
      exact ⟨writesOnly_singleton.2 ⟨by simp [written], hparts⟩, hafter⟩
  | @conditional _ _ _ _ _ _ _ left right pass _ _ _ hright _ _ ihleft ihright ihpass =>
      obtain ⟨hl, hts₁⟩ := ihleft (Token.namesOnly_cons.1 hts).2
      obtain ⟨hr, hts₂⟩ := ihright (Token.namesOnly_cons.1 hts₁).2
      obtain ⟨hp, hts₃⟩ := ihpass hts₂
      have hparts : WritesOnly P (left :: (right ++ pass)) :=
        writesOnly_cons.2 ⟨hl, writesOnly_append.2 ⟨hr, hp⟩⟩
      refine ⟨writesOnly_singleton.2 ⟨by simp [written], ?_⟩, hts₃⟩
      simpa [children, (isSome_of_readsOperand hright).2] using hparts
  | @conditionalElse _ _ _ _ _ _ _ _ _ left right pass fail _ _ _ hright _ _ _ ihleft ihright
      ihpass ihfail =>
      obtain ⟨hl, hts₁⟩ := ihleft (Token.namesOnly_cons.1 hts).2
      obtain ⟨hr, hts₂⟩ := ihright (Token.namesOnly_cons.1 hts₁).2
      obtain ⟨hp, hts₃⟩ := ihpass hts₂
      obtain ⟨hf, hts₄⟩ := ihfail (Token.namesOnly_cons.1 hts₃).2
      have hbranches : WritesOnly P (pass ++ fail) := writesOnly_append.2 ⟨hp, hf⟩
      have hparts : WritesOnly P (left :: (right ++ (pass ++ fail))) :=
        writesOnly_cons.2 ⟨hl, writesOnly_append.2 ⟨hr, hbranches⟩⟩
      refine ⟨writesOnly_singleton.2 ⟨by simp [written], ?_⟩, hts₄⟩
      simpa [children, (isSome_of_readsOperand hright).2] using hparts
  | @result _ _ _ value _ _ _ ih =>
      obtain ⟨hvalue, hafter⟩ := ih (Token.namesOnly_cons.1 hts).2
      refine ⟨writesOnly_singleton.2 ⟨by simp [written], ?_⟩, hafter⟩
      cases value with
      | nil => exact writesOnly_nil
      | cons first others => exact (writesOnly_cons.1 hvalue).1
  | more _ _ _ ihfirst ihnodes =>
      obtain ⟨hfirst, hafter⟩ := ihfirst hts
      obtain ⟨hnodes, hfinal⟩ := ihnodes hafter
      exact ⟨writesOnly_append.2 ⟨hfirst, hnodes⟩, hfinal⟩
  | braces _ _ ih => exact ih (Token.namesOnly_cons.1 hts).2
  | single _ _ ih | operand _ _ ih => exact ih hts

theorem writesOnly_of_readsProgram {ts : List Token} {program : List Node}
    (h : ReadsProgram ts program) (hts : Token.NamesOnly P ts) : WritesOnly P program := by
  induction h with
  | nil => exact writesOnly_nil
  | item hfirst _ ih =>
      obtain ⟨hnodes, hafter⟩ := writesOnly_of_reads hfirst hts
      exact writesOnly_append.2 ⟨hnodes, ih hafter⟩

end WritesOnly

end Node

/-! ## Names of a source -/

theorem Token.Spells.isName {name : String} {text : List Char}
    (h : Spells (.identifier name) text) : IsName name.toList := by
  cases h with
  | identifier hname => exact hname

theorem Token.namesOnly_of_lexes {position : Nat} {cs : List Char} {ts : List Token}
    (h : Lexes position cs ts) : NamesOnly (fun name => IsName name.toList) ts := by
  induction h with
  | nil => simp [NamesOnly]
  | space _ ih => exact ih
  | token hcut _ ih =>
      refine namesOnly_cons.2 ⟨?_, ih⟩
      intro name hname
      have hspells := hcut.1
      dsimp only at hname
      rw [hname] at hspells
      exact hspells.isName

theorem Name.isRooted_of_isName {name : String} (h : Token.IsName name.toList) :
    IsRooted name := by
  obtain ⟨c, rest, hcs, hc, -⟩ := h
  unfold IsRooted
  rw [hcs, List.head?_cons]
  intro hdot
  obtain rfl := Option.some.inj hdot
  cases hc

theorem parseSource_eq_ok_iff {source : String} {program : List Node} :
    parseSource source = .ok program ↔
      ∃ tokens, tokenize source = .ok tokens ∧ parse tokens = .ok program := by
  unfold parseSource
  split
  · simp_all
  · split <;> simp_all

theorem compile_eq_ok_iff {c : Configuration} {supply : Supply} {source : String}
    {lowered : Lowered} :
    compile c supply source = .ok lowered ↔
      ∃ program, parseSource source = .ok program ∧
        Lowering.lowerProgram c.lowering supply program = some lowered := by
  unfold compile compileTree
  cases parseSource source with
  | error e => simp [bind, Except.bind]
  | ok program =>
      cases hlower : Lowering.lowerProgram c.lowering supply program <;>
        simp [bind, Except.bind, hlower]

/-- A name of a program that comes from a source is a letter followed by letters, digits and
dots. -/
theorem Node.writesOnly_isName {source : String} {program : List Node}
    (h : parseSource source = .ok program) :
    WritesOnly (fun name => Token.IsName name.toList) program := by
  obtain ⟨tokens, htokens, hparse⟩ := parseSource_eq_ok_iff.1 h
  have hlexes := Token.tokenizeFrom_eq_ok_iff.1 htokens
  exact writesOnly_of_readsProgram (parse_eq_ok_iff.1 hparse) (Token.namesOnly_of_lexes hlexes)

/-- No name of a program that comes from a source begins with a dot. -/
theorem Node.writesOnly_isRooted {source : String} {program : List Node}
    (h : parseSource source = .ok program) : WritesOnly Name.IsRooted program := by
  intro node hnode name hname
  exact Name.isRooted_of_isName (writesOnly_isName h node hnode name hname)

end LijsCompiler
