import LijsCompiler.Proofs.Parser.Soundness

/-!
# What is derived is accepted

`Accepts` says of each form what its reader must answer.  A derivation gives that answer, by
induction on the derivation; together with soundness a token list parses to a program exactly
when the grammar derives it (`parse_eq_ok_iff`).
-/

namespace LijsCompiler.Node

def nodeParts (n : Nat) : Parts n := fun ts _ => readNode ts

def Accepts : Form → List Token → List Node → List Token → Prop
  | .item, ts, nodes, rest =>
      ∃ (found : Option Node) (h : _), readNode ts = .ok ⟨found, rest, h⟩ ∧ found.toList = nodes
  | .upTo closer, ts, nodes, rest =>
      ∀ n (hn : ts.length ≤ n), ∃ h, readUntil (nodeParts n) closer ts hn = .ok ⟨nodes, rest, h⟩
  | .body, ts, nodes, rest =>
      ∀ n (hn : ts.length ≤ n), ∃ h, readBody (nodeParts n) ts hn = .ok ⟨nodes, rest, h⟩
  | .operand check, ts, nodes, rest =>
      ∀ n (hn : ts.length ≤ n), ∃ (found : Option Node) (h : _),
        readOperand (nodeParts n) check ts hn = .ok ⟨found, rest, h⟩ ∧ found.toList = nodes

theorem readNode_cons (t : Token) (rest : List Token) :
    readNode (t :: rest) = readConstruct t rest (nodeParts rest.length) := by
  rw [readNode]
  rfl

theorem readName_cons {construct : Construct} {t : Token} {rest : List Token} {name : String}
    (h : t.kind = .identifier name) :
    readName construct (t :: rest) = .ok ⟨name, rest, Nat.lt_add_one _⟩ := by
  simp [readName, h]

theorem readKey_cons {t : Token} {rest : List Token} {key : Node}
    (h : keyOf? t.kind = some key) :
    readKey (t :: rest) = .ok ⟨key, rest, Nat.lt_add_one _⟩ := by
  rcases eq_of_keyOf? h with ⟨name, hkind, rfl⟩ | ⟨text, hkind, rfl⟩ <;> simp [readKey, hkind]

theorem readParams_of_readsParams {ts rest : List Token} {names : List String}
    (h : ReadsParams ts names rest) : ∃ hlt, readParams ts = .ok ⟨names, rest, hlt⟩ := by
  induction h with
  | close h => exact ⟨by simp, by simp [readParams, h]⟩
  | name h _ ih =>
      obtain ⟨hlt, ih⟩ := ih
      refine ⟨by simp only [List.length_cons]; omega, ?_⟩
      simp only [readParams, h]
      rw [ih]
      rfl
  | @trivia t rest after names h _ ih =>
      obtain ⟨hlt, ih⟩ := ih
      refine ⟨by simp only [List.length_cons]; omega, ?_⟩
      cases hkind : t.kind with
      | lineBreak | lineComment | blockComment =>
          simp only [readParams, hkind]
          rw [if_pos (by rfl), ih]
          rfl
      | _ => simp [hkind, TokenKind.isTrivia] at h

theorem ok_bind {ε α β : Type} (a : α) (f : α → Except ε β) : Except.ok a >>= f = f a := rfl

theorem readValue_of_accepts {ts rest : List Token} {value : Node} (construct : Construct)
    (h : Accepts .item ts [value] rest) {n : Nat} (hn : ts.length ≤ n) :
    ∃ hlt, readValue (nodeParts n) construct ts hn = .ok ⟨value, rest, hlt⟩ := by
  obtain ⟨found, hlt, hread, hfound⟩ := h
  obtain rfl : found = some value := by cases found <;> simp_all
  have hparts : nodeParts n ts hn = .ok ⟨some value, rest, hlt⟩ := hread
  refine ⟨hlt, ?_⟩
  rw [readValue, hparts]
  rfl

theorem readAssignment_of_accepts {s : Token} {rest after : List Token} {name : String}
    {value : Node} (hname : s.kind = .identifier name) (hkind : value.kind ≠ .assignment)
    (hvalue : Accepts .item rest [value] after) {n : Nat} (hn : (s :: rest).length ≤ n) :
    ∃ hlt, readAssignment (nodeParts n) (s :: rest) hn =
      .ok ⟨.assignment name value, after, hlt⟩ := by
  obtain ⟨hlt, hvalue⟩ := readValue_of_accepts .assignment hvalue (Nat.le_of_succ_le hn)
  refine ⟨by simp only [List.length_cons]; omega, ?_⟩
  simp only [readAssignment, readName_cons hname, ok_bind, hvalue]
  cases value with
  | assignment => exact absurd rfl hkind
  | _ => rfl

theorem readSet_of_accepts {s k : Token} {rest after : List Token} {name : String}
    {key value : Node} (hname : s.kind = .identifier name) (hkey : keyOf? k.kind = some key)
    (hvalue : Accepts .item rest [value] after) {n : Nat} (hn : (s :: k :: rest).length ≤ n) :
    ∃ hlt, readSet (nodeParts n) (s :: k :: rest) hn = .ok ⟨.set name key value, after, hlt⟩ := by
  simp only [List.length_cons] at hn
  obtain ⟨hlt, hvalue⟩ := readValue_of_accepts .objectSet hvalue (n := n) (by omega)
  refine ⟨by simp only [List.length_cons]; omega, ?_⟩
  simp only [readSet, readName_cons hname, readKey_cons hkey, ok_bind, hvalue]
  rfl

theorem readIterator_of_accepts {ts inner after : List Token} {source : Node}
    {body : List Node} (hsource : Accepts .item ts [source] inner)
    (hbody : Accepts .body inner body after) {n : Nat} (hn : ts.length ≤ n) :
    ∃ hlt, readIterator (nodeParts n) ts hn = .ok ⟨.iterator source body, after, hlt⟩ := by
  obtain ⟨hlt, hsource⟩ := readValue_of_accepts .iterator hsource hn
  obtain ⟨hlt', hbody⟩ := hbody n (by omega)
  refine ⟨by omega, ?_⟩
  simp only [readIterator, hsource, ok_bind, hbody]
  rfl

theorem readFunction_of_accepts {s b : Token} {rest inner after : List Token} {name : String}
    {params : List String} {body : List Node} (hname : s.kind = .identifier name)
    (hbracket : b.kind = .mark .openBracket) (hparams : ReadsParams rest params inner)
    (hbody : Accepts .body inner body after) {n : Nat} (hn : (s :: b :: rest).length ≤ n) :
    ∃ hlt, readFunction (nodeParts n) (s :: b :: rest) hn =
      .ok ⟨.function name params body, after, hlt⟩ := by
  obtain ⟨hlt, hparams⟩ := readParams_of_readsParams hparams
  obtain ⟨hlt', hbody⟩ := hbody n (by simp only [List.length_cons] at hn; omega)
  refine ⟨by simp only [List.length_cons]; omega, ?_⟩
  simp only [readFunction, readName_cons hname, ok_bind, hbracket, if_true, hparams, hbody]
  rfl

theorem readCall_of_accepts (opening : Token) {s : Token} {rest after : List Token} {name : String}
    {args : List Node} (hname : s.kind = .identifier name)
    (hargs : Accepts (.upTo .closeParen) rest args after)
    (hcall : Arithmetic.ofName? name = none ∨ args.length ≤ 1)
    {n : Nat} (hn : (s :: rest).length ≤ n) :
    ∃ hlt, readCall (nodeParts n) opening (s :: rest) hn = .ok ⟨.call name args, after, hlt⟩ := by
  obtain ⟨hlt, hargs⟩ := hargs n (by simp only [List.length_cons] at hn; omega)
  refine ⟨by simp only [List.length_cons]; omega, ?_⟩
  simp only [readCall, readName_cons hname, ok_bind, hargs]
  rcases hcall with hcall | hcall
  · rw [hcall]
    rfl
  · cases Arithmetic.ofName? name with
    | none => rfl
    | some op =>
        rcases args with _ | ⟨first, _ | ⟨second, others⟩⟩
        · rfl
        · rfl
        · simp at hcall

theorem readArithmetic_of_accepts (opening : Token) {s : Token} {rest after : List Token}
    {name : String} {op : Arithmetic} {left right : Node} (hname : s.kind = .identifier name)
    (hargs : Accepts (.upTo .closeParen) rest [left, right] after)
    (hop : Arithmetic.ofName? name = some op) {n : Nat} (hn : (s :: rest).length ≤ n) :
    ∃ hlt, readCall (nodeParts n) opening (s :: rest) hn =
      .ok ⟨.arithmetic op left right, after, hlt⟩ := by
  obtain ⟨hlt, hargs⟩ := hargs n (by simp only [List.length_cons] at hn; omega)
  refine ⟨by simp only [List.length_cons]; omega, ?_⟩
  simp only [readCall, readName_cons hname, ok_bind, hargs, hop]
  rfl

/-- What stands before the branches of a condition decides what the rest of it gives. -/
theorem readConditional_of_accepts {c : Token} {ts ts₁ ts₂ ts₃ ts₄ : List Token} {check : Check}
    {left : Node} {right pass : List Node} {fail : Option (List Node)}
    (hleft : Accepts .item ts [left] (c :: ts₁)) (hcheck : c.kind = .keyword (.check check))
    (hright : Accepts (.operand check) ts₁ right ts₂) (hpass : Accepts .body ts₂ pass ts₃)
    {n : Nat} (hn : ts.length ≤ n)
    (helse : ∀ hn' : ts₃.length ≤ n, ∃ hlt,
      readElse (nodeParts n) ts₃ hn' = .ok ⟨fail, ts₄, hlt⟩) :
    ∃ hlt, readConditional (nodeParts n) ts hn =
      .ok ⟨.conditional check left right.head? pass fail, ts₄, hlt⟩ := by
  obtain ⟨h₁, hleft⟩ := readValue_of_accepts .condition hleft hn
  have hlen : ts₁.length < ts.length := Nat.lt_of_succ_lt h₁
  obtain ⟨found, h₂, hoperand, rfl⟩ := hright n (by omega)
  obtain ⟨h₃, hbody⟩ := hpass n (by omega)
  obtain ⟨h₄, hbranch⟩ := helse (by omega)
  refine ⟨by omega, ?_⟩
  have hcheck? : c.kind.check? = some check := by rw [hcheck]; rfl
  simp only [readConditional, hleft, ok_bind, hcheck?, hoperand, hbody, hbranch,
    Option.head?_toList]
  rfl

theorem readElse_of_accepts {e : Token} {rest after : List Token} {fail : List Node}
    (helse : e.kind = .keyword .otherwise) (hfail : Accepts .body rest fail after) {n : Nat}
    (hn : (e :: rest).length ≤ n) :
    ∃ hlt, readElse (nodeParts n) (e :: rest) hn = .ok ⟨some fail, after, hlt⟩ := by
  obtain ⟨hlt, hfail⟩ := hfail n (by simp only [List.length_cons] at hn; omega)
  refine ⟨by simp only [List.length_cons]; omega, ?_⟩
  rw [readElse, if_pos helse, hfail]
  rfl

theorem readElse_of_nextKind? {ts : List Token}
    (hnext : nextKind? ts ≠ some (.keyword .otherwise)) {n : Nat} (hn : ts.length ≤ n) :
    ∃ hlt, readElse (nodeParts n) ts hn = .ok ⟨none, ts, hlt⟩ := by
  refine ⟨by omega, ?_⟩
  cases ts with
  | nil => rfl
  | cons t rest => rw [readElse, if_neg (by simpa using hnext)]

theorem exists_cons_of_accepts {ts rest : List Token} {nodes : List Node}
    (h : Accepts .item ts nodes rest) : ∃ t tail, ts = t :: tail := by
  obtain ⟨_, _, hread, _⟩ := h
  cases ts with
  | nil =>
      rw [readNode] at hread
      cases hread
  | cons t tail => exact ⟨t, tail, rfl⟩

theorem readResult_of_accepts {ts after : List Token} {value : List Node}
    (hnext : nextKind? ts ≠ some .lineBreak) (hvalue : Accepts .item ts value after) {n : Nat}
    (hn : ts.length ≤ n) :
    ∃ hlt, readResult (nodeParts n) ts hn = .ok ⟨.result value.head?, after, hlt⟩ := by
  obtain ⟨t, rest, rfl⟩ := exists_cons_of_accepts hvalue
  obtain ⟨found, hlt, hread, rfl⟩ := hvalue
  have hparts : nodeParts n (t :: rest) hn = .ok ⟨found, after, hlt⟩ := hread
  refine ⟨by omega, ?_⟩
  rw [readResult, if_neg (by simpa using hnext), hparts, Option.head?_toList]
  rfl

theorem accepts_of_construct {t : Token} {rest after : List Token} {node : Node}
    (h : ∃ hlt, readConstruct t rest (nodeParts rest.length) = .ok ⟨some node, after, hlt⟩) :
    Accepts .item (t :: rest) [node] after := by
  obtain ⟨hlt, h⟩ := h
  exact ⟨some node, hlt, by rw [readNode_cons, h], rfl⟩

theorem accepts_of_wider {t : Token} {rest after : List Token} {node : Node} {m : Nat}
    {x : Read Node m} (hm : m ≤ rest.length + 1)
    (hx : ∃ hlt, x = .ok ⟨node, after, hlt⟩)
    (h : readConstruct t rest (nodeParts rest.length) = Reading.node hm <$> x) :
    Accepts .item (t :: rest) [node] after := by
  obtain ⟨hlt, rfl⟩ := hx
  exact accepts_of_construct ⟨_, h⟩

theorem accepts_of_reads {form : Form} {ts rest : List Token} {nodes : List Node}
    (h : Reads form ts nodes rest) : Accepts form ts nodes rest := by
  induction h with
  | @trivia t rest h =>
      refine ⟨none, by simp, ?_, rfl⟩
      rw [readNode_cons]
      cases hkind : t.kind with
      | lineBreak | lineComment | blockComment => simp only [readConstruct, hkind]
      | _ => simp [hkind, TokenKind.isTrivia] at h
  | identifier h | integer h | float h | string h =>
      exact accepts_of_construct ⟨by simp, by simp only [readConstruct, h]⟩
  | array h _ ih =>
      obtain ⟨hlt, ih⟩ := ih _ (Nat.le_refl _)
      refine accepts_of_construct ⟨by omega, ?_⟩
      simp only [readConstruct, h, ih]
      rfl
  | assignment h hname _ hkind ih =>
      exact accepts_of_wider (Nat.le_succ _)
        (readAssignment_of_accepts hname hkind ih (Nat.le_refl _))
        (by simp only [readConstruct, h])
  | create h hname =>
      refine accepts_of_construct ⟨by simp only [List.length_cons]; omega, ?_⟩
      simp only [readConstruct, h, readName_cons hname]
      rfl
  | get h hname hkey =>
      refine accepts_of_construct ⟨by simp only [List.length_cons]; omega, ?_⟩
      simp only [readConstruct, h, readGet, readName_cons hname, readKey_cons hkey, ok_bind]
      rfl
  | set h hname hkey _ ih =>
      exact accepts_of_wider (Nat.le_succ _) (readSet_of_accepts hname hkey ih (Nat.le_refl _))
        (by simp only [readConstruct, h])
  | @useModule t p rest path h hpath hnext =>
      refine accepts_of_construct ⟨by simp only [List.length_cons]; omega, ?_⟩
      cases rest with
      | nil =>
          simp only [readConstruct, h, readUse, hpath]
          rfl
      | cons a after =>
          have has : a.kind ≠ .keyword .asName := by simpa using hnext
          simp only [readConstruct, h, readUse, hpath, if_neg has]
          rfl
  | useModuleAs h hpath has hbinding =>
      refine accepts_of_construct ⟨by simp only [List.length_cons]; omega, ?_⟩
      simp only [readConstruct, h, readUse, hpath, if_pos has, hbinding]
      rfl
  | exportName h hname =>
      refine accepts_of_construct ⟨by simp only [List.length_cons]; omega, ?_⟩
      simp only [readConstruct, h, readExport, hname]
      rfl
  | function h hname hbracket hparams _ ih =>
      exact accepts_of_wider (Nat.le_succ _)
        (readFunction_of_accepts hname hbracket hparams ih (Nat.le_refl _))
        (by simp only [readConstruct, h])
  | @call t _ _ _ _ _ h hname _ hcall ih =>
      exact accepts_of_wider (Nat.le_succ _)
        (readCall_of_accepts t hname ih hcall (Nat.le_refl _))
        (by simp only [readConstruct, h])
  | @arithmetic t _ _ _ _ _ _ _ h hname hop _ ih =>
      exact accepts_of_wider (Nat.le_succ _)
        (readArithmetic_of_accepts t hname ih hop (Nat.le_refl _))
        (by simp only [readConstruct, h])
  | iterator h _ _ ihsource ihbody =>
      exact accepts_of_wider (Nat.le_succ _)
        (readIterator_of_accepts ihsource ihbody (Nat.le_refl _))
        (by simp only [readConstruct, h])
  | conditional h _ hcheck _ _ hnext ihleft ihright ihpass =>
      exact accepts_of_wider (Nat.le_succ _)
        (readConditional_of_accepts ihleft hcheck ihright ihpass (Nat.le_refl _)
          fun hn => readElse_of_nextKind? hnext hn)
        (by simp only [readConstruct, h])
  | conditionalElse h _ hcheck _ _ helse _ ihleft ihright ihpass ihfail =>
      exact accepts_of_wider (Nat.le_succ _)
        (readConditional_of_accepts ihleft hcheck ihright ihpass (Nat.le_refl _)
          fun hn => readElse_of_accepts helse ihfail hn)
        (by simp only [readConstruct, h])
  | @resultAlone t rest h hnext =>
      refine accepts_of_construct ⟨by omega, ?_⟩
      cases rest with
      | nil =>
          simp only [readConstruct, h, readResult]
          rfl
      | cons s rest =>
          have hbreak : s.kind = .lineBreak := by simpa using hnext
          simp only [readConstruct, h, readResult, if_pos hbreak]
          rfl
  | result h hnext _ ih =>
      exact accepts_of_wider (Nat.le_refl _) (readResult_of_accepts hnext ih (Nat.le_refl _))
        (by simp only [readConstruct, h])
  | done h =>
      intro n hn
      exact ⟨by simp, by rw [readUntil, if_pos h]⟩
  | @more ts after final closer first nodes hnext _ _ ihfirst ihnodes =>
      intro n hn
      obtain ⟨t, rest, rfl⟩ := exists_cons_of_accepts ihfirst
      obtain ⟨found, hlt, hread, rfl⟩ := ihfirst
      obtain ⟨hlt', ihnodes⟩ := ihnodes n (by omega)
      have hparts : nodeParts n (t :: rest) hn = .ok ⟨found, after, hlt⟩ := hread
      refine ⟨by omega, ?_⟩
      rw [readUntil, if_neg (by simpa using hnext)]
      simp only [hparts, ok_bind, ihnodes]
      rfl
  | braces h _ ih =>
      intro n hn
      obtain ⟨hlt, ih⟩ := ih n (by simp only [List.length_cons] at hn; omega)
      refine ⟨by simp only [List.length_cons]; omega, ?_⟩
      rw [readBody, if_pos h, ih]
      rfl
  | @single ts after nodes hnext _ ih =>
      intro n hn
      obtain ⟨t, rest, rfl⟩ := exists_cons_of_accepts ih
      obtain ⟨found, hlt, hread, rfl⟩ := ih
      have hparts : nodeParts n (t :: rest) hn = .ok ⟨found, after, hlt⟩ := hread
      refine ⟨hlt, ?_⟩
      rw [readBody, if_neg (by simpa using hnext), hparts]
      rfl
  | operand hcheck _ ih =>
      intro n hn
      obtain ⟨hlt, ih⟩ := readValue_of_accepts .condition ih hn
      refine ⟨some _, by omega, ?_, rfl⟩
      rw [readOperand, if_pos hcheck, ih]
      rfl
  | noOperand hcheck =>
      intro n hn
      exact ⟨none, by omega, by rw [readOperand, if_neg (by simp [hcheck])], rfl⟩

/-- A form reads a list in one way only. -/
theorem eq_of_reads {form : Form} {ts rest rest' : List Token} {nodes nodes' : List Node}
    (h : Reads form ts nodes rest) (h' : Reads form ts nodes' rest') :
    nodes = nodes' ∧ rest = rest' := by
  have haccepts := accepts_of_reads h
  have haccepts' := accepts_of_reads h'
  cases form with
  | item =>
      obtain ⟨found, _, hread, rfl⟩ := haccepts
      obtain ⟨found', _, hread', rfl⟩ := haccepts'
      rw [hread] at hread'
      cases hread'
      exact ⟨rfl, rfl⟩
  | upTo | body =>
      obtain ⟨_, hread⟩ := haccepts _ (Nat.le_refl _)
      obtain ⟨_, hread'⟩ := haccepts' _ (Nat.le_refl _)
      rw [hread] at hread'
      cases hread'
      exact ⟨rfl, rfl⟩
  | operand =>
      obtain ⟨found, _, hread, rfl⟩ := haccepts _ (Nat.le_refl _)
      obtain ⟨found', _, hread', rfl⟩ := haccepts' _ (Nat.le_refl _)
      rw [hread] at hread'
      cases hread'
      exact ⟨rfl, rfl⟩

/-- After an item, a program goes on with what is left. -/
theorem readProgram_of_reads {ts rest : List Token} {nodes : List Node}
    (h : Reads .item ts nodes rest) :
    readProgram ts = (readProgram rest).map (nodes ++ ·) := by
  have haccepts := accepts_of_reads h
  obtain ⟨t, tail, rfl⟩ := exists_cons_of_accepts haccepts
  obtain ⟨found, hlt, hread, rfl⟩ := haccepts
  rw [readProgram]
  simp only [hread, ok_bind]
  rfl

theorem readProgram_of_readsProgram {ts : List Token} {nodes : List Node}
    (h : ReadsProgram ts nodes) : readProgram ts = .ok nodes := by
  induction h with
  | nil => rw [readProgram]
  | item hfirst _ ih =>
      rw [readProgram_of_reads hfirst, ih]
      rfl

theorem ne_nil_of_readProgram_error {ts : List Token} {r : Refusal}
    (h : readProgram ts = .error r) : ts ≠ [] := by
  rintro rfl
  rw [readProgram] at h
  cases h

/-- A token list parses to a program exactly when the grammar derives it. -/
theorem readProgram_eq_ok_iff {ts : List Token} {nodes : List Node} :
    readProgram ts = .ok nodes ↔ ReadsProgram ts nodes :=
  ⟨readsProgram_of_readProgram, readProgram_of_readsProgram⟩

end LijsCompiler.Node

namespace LijsCompiler

theorem parse_eq_ok_iff {ts : List Token} {program : List Node} :
    parse ts = .ok program ↔ Node.ReadsProgram ts program := by
  rw [← Node.readProgram_eq_ok_iff]
  unfold parse
  cases Node.readProgram ts with
  | error e => simp
  | ok nodes => simp

end LijsCompiler
