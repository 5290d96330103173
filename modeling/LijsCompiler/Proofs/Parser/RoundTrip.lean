import LijsCompiler.Proofs.Node.Printer

/-!
# Printed programs are read back

A construct ends where the next token cannot continue it: only `as` and `else` can, and no printed
node begins with either.  `ReadsBack` says so of one node, for any tokens that follow; it passes
from the parts of a well-formed node to the node, and `parse_print` is its consequence for programs.
-/

namespace LijsCompiler.Node

/-- No `as` and no `else` follows, so that what was read cannot be continued. -/
def Ends (rest : List Token) : Prop :=
  nextKind? rest ≠ some (.keyword .asName) ∧ nextKind? rest ≠ some (.keyword .otherwise)

def ReadsBack (comment : Comment) (node : Node) : Prop :=
  ∀ ts rest, ts.map Token.kind = print comment node → Ends rest →
    Reads .item (ts ++ rest) [node] rest

theorem ends_nil : Ends [] := by
  simp [Ends]

theorem ends_of_mark {m : Mark} {t : Token} {rest : List Token} (h : t.kind = .mark m) :
    Ends (t :: rest) := by
  simp [Ends, h]

theorem ends_of_check {check : Check} {t : Token} {rest : List Token}
    (h : t.kind = .keyword (.check check)) : Ends (t :: rest) := by
  simp [Ends, h]

theorem nextKind?_of_map {ts rest : List Token} {k : TokenKind} {ks : List TokenKind}
    (h : ts.map Token.kind = k :: ks) : nextKind? (ts ++ rest) = some k := by
  obtain ⟨t, tail, rfl, rfl, -⟩ := List.map_eq_cons_iff.1 h
  rfl

theorem nextKind?_ne_of_print {comment : Comment} {node : Node} {ts rest : List Token}
    {k : TokenKind} (h : ts.map Token.kind = print comment node) (hk : announces k = false) :
    nextKind? (ts ++ rest) ≠ some k := by
  obtain ⟨k', ks, hprint, hk'⟩ := exists_print_eq_cons comment node
  rw [nextKind?_of_map (h.trans hprint)]
  rintro ⟨⟩
  simp [hk] at hk'

theorem ends_of_print {comment : Comment} {node : Node} {ts rest : List Token}
    (h : ts.map Token.kind = print comment node) : Ends (ts ++ rest) :=
  ⟨nextKind?_ne_of_print h rfl, nextKind?_ne_of_print h rfl⟩

theorem ends_of_printAll {comment : Comment} {closer : Mark} {nodes : List Node}
    {ts rest : List Token}
    (h : ts.map Token.kind = printAll comment nodes ++ [.mark closer]) : Ends (ts ++ rest) := by
  cases nodes with
  | nil =>
      obtain ⟨t, tail, rfl, hkind, -⟩ := List.map_eq_cons_iff.1 h
      exact ends_of_mark hkind
  | cons node nodes =>
      rw [printAll, List.append_assoc] at h
      obtain ⟨first, others, rfl, hfirst, -⟩ := List.map_eq_append_iff.1 h
      rw [List.append_assoc]
      exact ends_of_print hfirst

/-- Nodes that are read back one by one are read back as a list, up to its closing mark. -/
theorem reads_printAll {comment : Comment} {closer : Mark}
    (hcloser : announces (.mark closer) = false) {nodes : List Node}
    (hnodes : ∀ node ∈ nodes, ReadsBack comment node) {ts : List Token} (rest : List Token)
    (hts : ts.map Token.kind = printAll comment nodes ++ [.mark closer]) :
    Reads (.upTo closer) (ts ++ rest) nodes rest := by
  induction nodes generalizing ts with
  | nil =>
      obtain ⟨t, tail, rfl, hkind, htail⟩ := List.map_eq_cons_iff.1 hts
      obtain rfl := List.map_eq_nil_iff.1 htail
      exact .done hkind
  | cons node nodes ih =>
      rw [printAll, List.append_assoc] at hts
      obtain ⟨first, others, rfl, hfirst, hothers⟩ := List.map_eq_append_iff.1 hts
      rw [List.append_assoc]
      have hnode := hnodes node (by simp) first (others ++ rest) hfirst (ends_of_printAll hothers)
      have hrest := ih (fun m hm => hnodes m (by simp [hm])) hothers
      exact .more (nextKind?_ne_of_print hfirst hcloser) hnode hrest

theorem reads_braced {comment : Comment} {nodes : List Node}
    (hnodes : ∀ node ∈ nodes, ReadsBack comment node) {ts : List Token} (rest : List Token)
    (hts : ts.map Token.kind = braced (printAll comment nodes)) :
    Reads .body (ts ++ rest) nodes rest := by
  obtain ⟨t, tail, rfl, hopen, htail⟩ := List.map_eq_cons_iff.1 hts
  exact .braces hopen (reads_printAll rfl hnodes rest htail)

theorem readsParams_print {params : List String} {ts : List Token} (rest : List Token)
    (hts : ts.map Token.kind = params.map .identifier ++ [.mark .closeBracket]) :
    ReadsParams (ts ++ rest) params rest := by
  induction params generalizing ts with
  | nil =>
      obtain ⟨t, tail, rfl, hkind, htail⟩ := List.map_eq_cons_iff.1 hts
      obtain rfl := List.map_eq_nil_iff.1 htail
      exact .close hkind
  | cons name names ih =>
      obtain ⟨t, tail, rfl, hkind, htail⟩ := List.map_eq_cons_iff.1 hts
      exact .name hkind (ih htail)

theorem mem_names_of_ofName? {name : String} {op : Arithmetic}
    (h : Arithmetic.ofName? name = some op) : name ∈ Arithmetic.all.map Arithmetic.name :=
  List.mem_map.2 ⟨op, List.mem_of_find?_eq_some h, name_of_ofName? h⟩

theorem ofName?_of_wellFormedHere {name : String} {args : List Node}
    (h : (call name args).wellFormedHere) :
    Arithmetic.ofName? name = none ∨ args.length ≤ 1 := by
  cases hop : Arithmetic.ofName? name with
  | none => exact .inl rfl
  | some op => exact .inr (by simpa [wellFormedHere, mem_names_of_ofName? hop] using h)

theorem exists_of_print_key {comment : Comment} {key : Node} {ts : List Token}
    (hkey : key.kind = .identifier ∨ key.kind = .string)
    (hts : ts.map Token.kind = print comment key) :
    ∃ k, ts = [k] ∧ keyOf? k.kind = some key := by
  cases key with
  | identifier name | string text =>
      obtain ⟨k, rfl, hk⟩ := List.map_eq_singleton_iff.1 hts
      exact ⟨k, rfl, by rw [hk]; rfl⟩
  | _ => simp [kind] at hkey

theorem reads_printOption {comment : Comment} {check : Check} {right : Option Node}
    (hright : right.isSome = (check != .present))
    (ih : ∀ node ∈ right, ReadsBack comment node) {ts rest : List Token}
    (hts : ts.map Token.kind = printOption comment right) (hrest : Ends rest) :
    Reads (.operand check) (ts ++ rest) right.toList rest := by
  cases right with
  | none =>
      obtain rfl := List.map_eq_nil_iff.1 hts
      refine .noOperand ?_
      cases check <;> simp [Check.takesRight] at hright ⊢
  | some node =>
      refine .operand ?_ (ih node rfl ts rest hts hrest)
      cases check <;> simp [Check.takesRight] at hright ⊢

theorem ends_of_braced {inner : List TokenKind} {ts rest : List Token}
    (h : ts.map Token.kind = braced inner) : Ends (ts ++ rest) := by
  obtain ⟨t, tail, rfl, ht, -⟩ := List.map_eq_cons_iff.1 h
  exact ends_of_mark ht

theorem readsBack_conditional {comment : Comment} {check : Check} {left : Node}
    {right : Option Node} {pass : List Node} {fail : Option (List Node)}
    (hright : right.isSome = (check != .present))
    (ihleft : ReadsBack comment left) (ihright : ∀ node ∈ right, ReadsBack comment node)
    (ihpass : ∀ node ∈ pass, ReadsBack comment node)
    (ihfail : ∀ node ∈ fail.getD [], ReadsBack comment node) :
    ReadsBack comment (.conditional check left right pass fail) := by
  intro ts rest hts hrest
  -- the tokens, cut where the printer joins them
  obtain ⟨t, _, rfl, ht, hts⟩ := List.map_eq_cons_iff.1 hts
  obtain ⟨lefts, _, rfl, hlefts, hts⟩ := List.map_eq_append_iff.1 hts
  obtain ⟨c, _, rfl, hc, hts⟩ := List.map_eq_cons_iff.1 hts
  obtain ⟨rights, _, rfl, hrights, hts⟩ := List.map_eq_append_iff.1 hts
  obtain ⟨passes, fails, rfl, hpasses, hfails⟩ := List.map_eq_append_iff.1 hts
  have hleft := ihleft lefts (c :: (rights ++ (passes ++ (fails ++ rest)))) hlefts
    (ends_of_check hc)
  have hends : Ends (passes ++ (fails ++ rest)) := ends_of_braced hpasses
  have hoperand := reads_printOption hright ihright hrights hends
  have hbody := reads_braced ihpass (fails ++ rest) hpasses
  have hhead : right.toList.head? = right := by cases right <;> rfl
  cases fail with
  | none =>
      obtain rfl := List.map_eq_nil_iff.1 hfails
      have h := Reads.conditional ht hleft hc hoperand hbody hrest.2
      simpa [hhead] using h
  | some nodes =>
      obtain ⟨e, tail, rfl, he, htail⟩ := List.map_eq_cons_iff.1 hfails
      have h := Reads.conditionalElse ht hleft hc hoperand hbody he (reads_braced ihfail rest htail)
      simpa [hhead] using h

theorem readsBack_of_children {comment : Comment} (node : Node) (hwf : node.wellFormedHere)
    (ih : ∀ child ∈ node.children, ReadsBack comment child) : ReadsBack comment node := by
  intro ts rest hts hrest
  cases node with
  | identifier name =>
      obtain ⟨t, rfl, ht⟩ := List.map_eq_singleton_iff.1 hts
      exact .identifier ht
  | integer text =>
      obtain ⟨t, rfl, ht⟩ := List.map_eq_singleton_iff.1 hts
      exact .integer ht
  | float text =>
      obtain ⟨t, rfl, ht⟩ := List.map_eq_singleton_iff.1 hts
      exact .float ht
  | string text =>
      obtain ⟨t, rfl, ht⟩ := List.map_eq_singleton_iff.1 hts
      exact .string ht
  | array elements =>
      obtain ⟨t, tail, rfl, ht, htail⟩ := List.map_eq_cons_iff.1 hts
      exact .array ht (reads_printAll rfl ih rest htail)
  | assignment name value =>
      simp only [print, List.map_eq_cons_iff] at hts
      obtain ⟨t, _, rfl, ht, n, tail, rfl, hn, htail⟩ := hts
      exact .assignment ht hn (ih value (by simp [children]) tail rest htail hrest)
        (by simpa [wellFormedHere] using hwf)
  | create name =>
      simp only [print, List.map_eq_cons_iff, List.map_eq_nil_iff] at hts
      obtain ⟨t, _, rfl, ht, n, _, rfl, hn, rfl⟩ := hts
      exact .create ht hn
  | exportName name =>
      simp only [print, List.map_eq_cons_iff, List.map_eq_nil_iff] at hts
      obtain ⟨t, _, rfl, ht, n, _, rfl, hn, rfl⟩ := hts
      exact .exportName ht hn
  | iterator source body =>
      obtain ⟨t, tail, rfl, ht, htail⟩ := List.map_eq_cons_iff.1 hts
      obtain ⟨first, others, rfl, hfirst, hothers⟩ := List.map_eq_append_iff.1 htail
      have hbody := reads_braced (fun m hm => ih m (by simp [children, hm])) rest hothers
      have hends : Ends (others ++ rest) := ends_of_braced hothers
      have hsource := ih source (by simp [children]) first (others ++ rest) hfirst hends
      rw [List.cons_append, List.append_assoc]
      exact .iterator ht hsource hbody
  | call name args =>
      simp only [print, List.map_eq_cons_iff] at hts
      obtain ⟨t, _, rfl, ht, n, tail, rfl, hn, htail⟩ := hts
      exact .call ht hn (reads_printAll rfl ih rest htail) (ofName?_of_wellFormedHere hwf)
  | arithmetic op left right =>
      simp only [print, List.map_eq_cons_iff] at hts
      obtain ⟨t, _, rfl, ht, n, tail, rfl, hn, htail⟩ := hts
      have hall : tail.map Token.kind = printAll comment [left, right] ++ [.mark .closeParen] := by
        simpa [printAll] using htail
      refine .arithmetic ht hn ?_ (reads_printAll rfl ih rest hall)
      cases op <;> decide
  | get name key =>
      simp only [print, List.map_eq_cons_iff] at hts
      obtain ⟨t, _, rfl, ht, n, tail, rfl, hn, htail⟩ := hts
      obtain ⟨k, rfl, hk⟩ := exists_of_print_key (by simpa [wellFormedHere] using hwf) htail
      exact .get ht hn hk
  | set name key value =>
      simp only [print, List.map_eq_cons_iff] at hts
      obtain ⟨t, _, rfl, ht, n, tail, rfl, hn, htail⟩ := hts
      obtain ⟨keys, values, rfl, hkeys, hvalues⟩ := List.map_eq_append_iff.1 htail
      obtain ⟨k, rfl, hk⟩ := exists_of_print_key (by simpa [wellFormedHere] using hwf) hkeys
      exact .set ht hn hk (ih value (by simp [children]) values rest hvalues hrest)
  | useModule path binding =>
      cases binding with
      | none =>
          simp only [print, List.map_eq_cons_iff, List.map_eq_nil_iff] at hts
          obtain ⟨t, _, rfl, ht, p, _, rfl, hp, rfl⟩ := hts
          exact .useModule ht hp hrest.1
      | some name =>
          simp only [print, List.map_eq_cons_iff, List.map_eq_nil_iff] at hts
          obtain ⟨t, _, rfl, ht, p, _, rfl, hp, a, _, rfl, ha, b, _, rfl, hb, rfl⟩ := hts
          exact .useModuleAs ht hp ha hb
  | function name params body =>
      simp only [print, List.map_eq_cons_iff] at hts
      obtain ⟨t, _, rfl, ht, n, _, rfl, hn, b, tail, rfl, hb, htail⟩ := hts
      rw [← List.singleton_append, ← List.append_assoc] at htail
      obtain ⟨names, inner, rfl, hnames, hinner⟩ := List.map_eq_append_iff.1 htail
      have hparams := readsParams_print (inner ++ rest) hnames
      have hbody : Reads .body (inner ++ rest) body rest := reads_braced ih rest hinner
      simpa using Reads.function ht hn hb hparams hbody
  | conditional check left right pass fail =>
      have hright : right.isSome = (check != .present) := by simpa [wellFormedHere] using hwf
      refine readsBack_conditional hright ?_ ?_ ?_ ?_ ts rest hts hrest
      · exact ih left (by simp [children])
      · exact fun node hnode => ih node (by simp_all [children])
      · exact fun node hnode => ih node (by simp [children, hnode])
      · exact fun node hnode => ih node (by simp [children, hnode])
  | result value =>
      cases value with
      | none =>
          simp only [print, List.map_eq_cons_iff, List.map_eq_nil_iff] at hts
          obtain ⟨t, _, rfl, ht, c, _, rfl, hc, rfl⟩ := hts
          have htrivia : c.kind.isTrivia := by rw [hc]; cases comment <;> rfl
          have hbreak : c.kind ≠ .lineBreak := by rw [hc]; cases comment <;> simp [Comment.kind]
          exact .result ht (by simpa using hbreak) (.trivia htrivia)
      | some value =>
          obtain ⟨t, tail, rfl, ht, htail⟩ := List.map_eq_cons_iff.1 hts
          exact .result ht (nextKind?_ne_of_print htail rfl)
            (ih value (by simp [children]) tail rest htail hrest)

theorem readsBack_of_wellFormed (comment : Comment) (node : Node) :
    WellFormed [node] → ReadsBack comment node := by
  induction node using children_induction with
  | step node ih =>
      intro hwf
      obtain ⟨hhere, hparts⟩ := wellFormed_singleton.1 hwf
      exact readsBack_of_children node hhere fun child hchild =>
        ih child hchild (wellFormed_of_mem hparts hchild)

theorem readsProgram_print {comment : Comment} {program : List Node} (hwf : WellFormed program)
    {ts : List Token} (hts : ts.map Token.kind = printAll comment program) :
    ReadsProgram ts program := by
  induction program generalizing ts with
  | nil =>
      obtain rfl := List.map_eq_nil_iff.1 hts
      exact .nil
  | cons node nodes ih =>
      obtain ⟨hnode, hnodes⟩ := wellFormed_cons.1 hwf
      obtain ⟨first, others, rfl, hfirst, hothers⟩ := List.map_eq_append_iff.1 hts
      have hends : Ends others := by
        cases nodes with
        | nil =>
            obtain rfl := List.map_eq_nil_iff.1 hothers
            exact ends_nil
        | cons node' nodes' =>
            obtain ⟨first', others', rfl, hfirst', -⟩ := List.map_eq_append_iff.1 hothers
            exact ends_of_print hfirst'
      have hread := readsBack_of_wellFormed comment node hnode first others hfirst hends
      exact .item hread (ih hnodes hothers)

end LijsCompiler.Node

namespace LijsCompiler

/-- Tokens of the kinds that are printed of a well-formed program parse to that program, wherever
they stand in a source. -/
theorem parse_print (comment : Comment) {program : List Node} (hwf : Node.WellFormed program)
    {ts : List Token} (hts : ts.map Token.kind = Node.printAll comment program) :
    parse ts = .ok program :=
  parse_eq_ok_iff.2 (Node.readsProgram_print hwf hts)

/-- A condition inside a condition, an import without a binding before a body, and a result without
a value before a brace. -/
theorem parse_print_nested_conditional :
    Node.WellFormed
        [.conditional .equal (.conditional .present (.identifier "a") none [] none)
          (some (.useModule "m" none)) [.result none] (some [.call "add" [.integer "1"]])] ∧
      parse ([.mark .condition, .mark .condition, .identifier "a", .keyword (.check .present),
          .mark .openBrace, .mark .closeBrace, .keyword (.check .equal), .keyword .useModule,
          .string "m", .mark .openBrace, .mark .result, .lineComment "", .mark .closeBrace,
          .keyword .otherwise, .mark .openBrace, .mark .openParen, .identifier "add",
          .integer "1", .mark .closeParen, .mark .closeBrace].map (Token.mk · default)) =
        .ok [.conditional .equal (.conditional .present (.identifier "a") none [] none)
          (some (.useModule "m" none)) [.result none] (some [.call "add" [.integer "1"]])] :=
  ⟨by decide, parse_print (.line "") (by decide) rfl⟩

end LijsCompiler
