import LijsCompiler.Proofs.Parser.Grammar

/-!
# What the readers accept is derived

One lemma for each reader, over a reader of parts that is itself sound.  `readNode` ties the knot by
induction on the number of tokens.
-/

namespace LijsCompiler.Node

theorem bind_eq_ok {ε α β : Type} {x : Except ε α} {f : α → Except ε β} {b : β}
    (h : x >>= f = .ok b) : ∃ a, x = .ok a ∧ f a = .ok b := by
  cases x with
  | error e => exact absurd h (by simp [bind, Except.bind])
  | ok a => exact ⟨a, rfl, h⟩

theorem exists_of_readName {construct : Construct} {ts rest : List Token} {name : String}
    {hlt : rest.length < ts.length} (h : readName construct ts = .ok ⟨name, rest, hlt⟩) :
    ∃ t, ts = t :: rest ∧ t.kind = .identifier name := by
  cases ts with
  | nil => cases h
  | cons t rest =>
      simp only [readName] at h
      split at h
      · cases h
        exact ⟨t, rfl, ‹_›⟩
      · cases h

theorem exists_of_readKey {ts rest : List Token} {key : Node}
    {hlt : rest.length < ts.length} (h : readKey ts = .ok ⟨key, rest, hlt⟩) :
    ∃ t, ts = t :: rest ∧ keyOf? t.kind = some key := by
  cases ts with
  | nil => cases h
  | cons t rest =>
      simp only [readKey] at h
      split at h
      · cases h
        exact ⟨t, rfl, by simp [keyOf?, *]⟩
      · cases h
        exact ⟨t, rfl, by simp [keyOf?, *]⟩
      · cases h

theorem readsParams_of_readParams {ts : List Token} {r : Reading (List String) ts.length}
    (h : readParams ts = .ok r) : ReadsParams ts r.value r.rest := by
  fun_induction readParams ts with
  | case1 => cases h
  | case2 t rest hkind =>
      cases h
      exact .close hkind
  | case3 t rest name hkind ih =>
      obtain ⟨a, ha, h⟩ := bind_eq_ok h
      cases h
      exact .name hkind (ih ha)
  | case4 t rest _ _ htrivia ih =>
      obtain ⟨a, ha, h⟩ := bind_eq_ok h
      cases h
      exact .trivia htrivia (ih ha)
  | case5 => cases h

section

variable {n : Nat} {parts : Parts n}
  (hparts : ∀ ts h r, parts ts h = .ok r → Reads .item ts r.value.toList r.rest)

include hparts

theorem reads_of_readValue {construct : Construct} {ts : List Token} {hn : ts.length ≤ n}
    {r : Reading Node ts.length} (h : readValue parts construct ts hn = .ok r) :
    Reads .item ts [r.value] r.rest := by
  obtain ⟨⟨found, rest, hrest⟩, hfound, h⟩ := bind_eq_ok h
  have hreads := hparts _ _ _ hfound
  cases found with
  | none => cases h
  | some node =>
      cases h
      exact hreads

theorem reads_of_readUntil {closer : Mark} {ts : List Token} {hn : ts.length ≤ n}
    {r : Reading (List Node) ts.length} (h : readUntil parts closer ts hn = .ok r) :
    Reads (.upTo closer) ts r.value r.rest := by
  induction ts, hn using readUntil.induct closer with
  | case1 => simp [readUntil] at h
  | case2 t rest hn hclose _ =>
      rw [readUntil, if_pos hclose] at h
      cases h
      exact .done hclose
  | case3 t rest hn hclose _ ih =>
      rw [readUntil, if_neg hclose] at h
      obtain ⟨⟨first, after, hafter⟩, hfirst, h⟩ := bind_eq_ok h
      obtain ⟨⟨nodes, final, hfinal⟩, hnodes, h⟩ := bind_eq_ok h
      cases h
      exact .more (by simpa using hclose) (hparts _ _ _ hfirst) (ih _ hafter hnodes)

theorem reads_of_readBody {ts : List Token} {hn : ts.length ≤ n}
    {r : Reading (List Node) ts.length} (h : readBody parts ts hn = .ok r) :
    Reads .body ts r.value r.rest := by
  cases ts with
  | nil => cases h
  | cons t rest =>
      by_cases hopen : t.kind = .mark .openBrace
      · rw [readBody, if_pos hopen] at h
        obtain ⟨⟨nodes, after, hafter⟩, hnodes, h⟩ := bind_eq_ok h
        cases h
        exact .braces hopen (reads_of_readUntil hparts hnodes)
      · rw [readBody, if_neg hopen] at h
        obtain ⟨⟨node, after, hafter⟩, hnode, h⟩ := bind_eq_ok h
        cases h
        exact .single (by simpa using hopen) (hparts _ _ _ hnode)

theorem reads_of_readOperand {check : Check} {ts : List Token} {hn : ts.length ≤ n}
    {r : Reading (Option Node) (ts.length + 1)} (h : readOperand parts check ts hn = .ok r) :
    Reads (.operand check) ts r.value.toList r.rest := by
  by_cases htakes : check.takesRight
  · rw [readOperand, if_pos htakes] at h
    obtain ⟨⟨node, rest, hrest⟩, hnode, h⟩ := bind_eq_ok h
    cases h
    exact .operand htakes (reads_of_readValue hparts hnode)
  · rw [readOperand, if_neg htakes] at h
    cases h
    exact .noOperand (by simpa using htakes)

end

/-! ### Constructs

Each lemma is about the tokens after the token `t` that announces the construct. -/

theorem reads_of_readUse {t : Token} {ts : List Token} {r : Reading Node ts.length}
    (ht : t.kind = .keyword .useModule) (h : readUse ts = .ok r) :
    Reads .item (t :: ts) [r.value] r.rest := by
  cases ts with
  | nil => cases h
  | cons p rest =>
      simp only [readUse] at h
      split at h
      · rename_i path hpath
        cases rest with
        | nil =>
            cases h
            exact .useModule ht hpath (by simp)
        | cons a after =>
            by_cases has : a.kind = .keyword .asName
            · simp only [has, if_true] at h
              cases after with
              | nil => simp at h
              | cons b final =>
                  simp only at h
                  split at h
                  · cases h
                    exact .useModuleAs ht hpath has ‹_›
                  · cases h
            · simp only [has, if_false] at h
              cases h
              exact .useModule ht hpath (by simpa using has)
      · cases h

theorem reads_of_readExport {t : Token} {ts : List Token} {r : Reading Node ts.length}
    (ht : t.kind = .keyword .exportName) (h : readExport ts = .ok r) :
    Reads .item (t :: ts) [r.value] r.rest := by
  cases ts with
  | nil => cases h
  | cons n rest =>
      simp only [readExport] at h
      split at h
      · cases h
        exact .exportName ht ‹_›
      · cases h

theorem reads_of_readGet {t : Token} {ts : List Token} {r : Reading Node ts.length}
    (ht : t.kind = .keyword .get) (h : readGet ts = .ok r) :
    Reads .item (t :: ts) [r.value] r.rest := by
  obtain ⟨⟨name, ts₁, h₁⟩, hname, h⟩ := bind_eq_ok h
  obtain ⟨⟨key, ts₂, h₂⟩, hkey, h⟩ := bind_eq_ok h
  cases h
  obtain ⟨n, rfl, hn⟩ := exists_of_readName hname
  obtain ⟨k, rfl, hk⟩ := exists_of_readKey hkey
  exact .get ht hn hk

section

variable {n : Nat} {parts : Parts n}
  (hparts : ∀ ts h r, parts ts h = .ok r → Reads .item ts r.value.toList r.rest)

include hparts

theorem reads_of_readResult {t : Token} {ts : List Token} {hn : ts.length ≤ n}
    {r : Reading Node (ts.length + 1)}
    (ht : t.kind = .mark .result) (h : readResult parts ts hn = .ok r) :
    Reads .item (t :: ts) [r.value] r.rest := by
  cases ts with
  | nil =>
      cases h
      exact .resultAlone ht (.inl rfl)
  | cons s rest =>
      by_cases hbreak : s.kind = .lineBreak
      · rw [readResult, if_pos hbreak] at h
        cases h
        exact .resultAlone ht (.inr (by simp [hbreak]))
      · rw [readResult, if_neg hbreak] at h
        obtain ⟨⟨value, after, hafter⟩, hvalue, h⟩ := bind_eq_ok h
        cases h
        have hreads := Reads.result ht (by simpa using hbreak) (hparts _ _ _ hvalue)
        simpa using hreads

theorem reads_of_readAssignment {t : Token} {ts : List Token} {hn : ts.length ≤ n}
    {r : Reading Node ts.length}
    (ht : t.kind = .mark .assign) (h : readAssignment parts ts hn = .ok r) :
    Reads .item (t :: ts) [r.value] r.rest := by
  obtain ⟨⟨name, ts₁, h₁⟩, hname, h⟩ := bind_eq_ok h
  obtain ⟨⟨value, ts₂, h₂⟩, hvalue, h⟩ := bind_eq_ok h
  obtain ⟨s, rfl, hs⟩ := exists_of_readName hname
  have hreads := reads_of_readValue hparts hvalue
  cases value with
  | assignment => cases h
  | _ =>
      cases h
      exact .assignment ht hs hreads (by simp [kind])

theorem reads_of_readSet {t : Token} {ts : List Token} {hn : ts.length ≤ n}
    {r : Reading Node ts.length}
    (ht : t.kind = .keyword .set) (h : readSet parts ts hn = .ok r) :
    Reads .item (t :: ts) [r.value] r.rest := by
  obtain ⟨⟨name, ts₁, h₁⟩, hname, h⟩ := bind_eq_ok h
  obtain ⟨⟨key, ts₂, h₂⟩, hkey, h⟩ := bind_eq_ok h
  obtain ⟨⟨value, ts₃, h₃⟩, hvalue, h⟩ := bind_eq_ok h
  cases h
  obtain ⟨s, rfl, hs⟩ := exists_of_readName hname
  obtain ⟨k, rfl, hk⟩ := exists_of_readKey hkey
  exact .set ht hs hk (reads_of_readValue hparts hvalue)

theorem reads_of_readCall {t : Token} {ts : List Token} {hn : ts.length ≤ n}
    {r : Reading Node ts.length}
    (ht : t.kind = .mark .openParen) (h : readCall parts t ts hn = .ok r) :
    Reads .item (t :: ts) [r.value] r.rest := by
  obtain ⟨⟨name, ts₁, h₁⟩, hname, h⟩ := bind_eq_ok h
  obtain ⟨⟨args, ts₂, h₂⟩, hargs, h⟩ := bind_eq_ok h
  obtain ⟨s, rfl, hs⟩ := exists_of_readName hname
  have hreads := reads_of_readUntil hparts hargs
  dsimp only at h
  cases hop : Arithmetic.ofName? name with
  | none =>
      rw [hop] at h
      cases h
      exact .call ht hs hreads (.inl hop)
  | some op =>
      rw [hop] at h
      match args, h with
      | [], h =>
          cases h
          exact .call ht hs hreads (.inr (by simp))
      | [_], h =>
          cases h
          exact .call ht hs hreads (.inr (by simp))
      | [_, _], h =>
          cases h
          exact .arithmetic ht hs hop hreads
      | _ :: _ :: _ :: _, h => cases h

theorem reads_of_readFunction {t : Token} {ts : List Token} {hn : ts.length ≤ n}
    {r : Reading Node ts.length}
    (ht : t.kind = .keyword .define) (h : readFunction parts ts hn = .ok r) :
    Reads .item (t :: ts) [r.value] r.rest := by
  obtain ⟨⟨name, ts₁, h₁⟩, hname, h⟩ := bind_eq_ok h
  obtain ⟨s, rfl, hs⟩ := exists_of_readName hname
  cases ts₁ with
  | nil => cases h
  | cons b rest =>
      by_cases hbracket : b.kind = .mark .openBracket
      · simp only [hbracket, if_true] at h
        obtain ⟨⟨params, ts₂, h₂⟩, hparams, h⟩ := bind_eq_ok h
        obtain ⟨⟨body, ts₃, h₃⟩, hbody, h⟩ := bind_eq_ok h
        cases h
        exact .function ht hs hbracket (readsParams_of_readParams hparams)
          (reads_of_readBody hparts hbody)
      · simp only [hbracket, if_false] at h
        cases h

theorem reads_of_readIterator {t : Token} {ts : List Token} {hn : ts.length ≤ n}
    {r : Reading Node ts.length}
    (ht : t.kind = .mark .loop) (h : readIterator parts ts hn = .ok r) :
    Reads .item (t :: ts) [r.value] r.rest := by
  obtain ⟨⟨source, ts₁, h₁⟩, hsource, h⟩ := bind_eq_ok h
  obtain ⟨⟨body, ts₂, h₂⟩, hbody, h⟩ := bind_eq_ok h
  cases h
  exact .iterator ht (reads_of_readValue hparts hsource) (reads_of_readBody hparts hbody)

theorem reads_of_readElse {t c : Token} {rest ts₁ ts₂ ts₃ : List Token} {check : Check}
    {left : Node} {right pass : List Node} {hn : ts₃.length ≤ n}
    {r : Reading (Option (List Node)) (ts₃.length + 1)}
    (ht : t.kind = .mark .condition) (hleft : Reads .item rest [left] (c :: ts₁))
    (hcheck : c.kind = .keyword (.check check))
    (hright : Reads (.operand check) ts₁ right ts₂) (hpass : Reads .body ts₂ pass ts₃)
    (h : readElse parts ts₃ hn = .ok r) :
    Reads .item (t :: rest) [.conditional check left right.head? pass r.value] r.rest := by
  cases ts₃ with
  | nil =>
      cases h
      exact .conditional ht hleft hcheck hright hpass (by simp)
  | cons e after =>
      by_cases helse : e.kind = .keyword .otherwise
      · rw [readElse, if_pos helse] at h
        obtain ⟨⟨fail, ts₄, h₄⟩, hfail, h⟩ := bind_eq_ok h
        cases h
        exact .conditionalElse ht hleft hcheck hright hpass helse (reads_of_readBody hparts hfail)
      · rw [readElse, if_neg helse] at h
        cases h
        exact .conditional ht hleft hcheck hright hpass (by simpa using helse)

theorem reads_of_readConditional {t : Token} {ts : List Token} {hn : ts.length ≤ n}
    {r : Reading Node ts.length}
    (ht : t.kind = .mark .condition) (h : readConditional parts ts hn = .ok r) :
    Reads .item (t :: ts) [r.value] r.rest := by
  obtain ⟨⟨left, ts₁, h₁⟩, hleft, h⟩ := bind_eq_ok h
  have hreads := reads_of_readValue hparts hleft
  cases ts₁ with
  | nil => cases h
  | cons c rest =>
      dsimp only at h
      split at h
      · obtain ⟨_, _, h⟩ := bind_eq_ok h
        cases h
      · rename_i check hcheck
        have hc : c.kind = .keyword (.check check) := by
          unfold TokenKind.check? at hcheck
          split at hcheck
          · cases hcheck
            assumption
          · simp at hcheck
        obtain ⟨⟨right, ts₂, h₂⟩, hright, h⟩ := bind_eq_ok h
        obtain ⟨⟨pass, ts₃, h₃⟩, hpass, h⟩ := bind_eq_ok h
        obtain ⟨⟨fail, ts₄, h₄⟩, hfail, h⟩ := bind_eq_ok h
        cases h
        have hcond := reads_of_readElse hparts ht hreads hc (reads_of_readOperand hparts hright)
          (reads_of_readBody hparts hpass) hfail
        simpa using hcond

end

theorem reads_of_map_node {m k : Nat} {hmk : m ≤ k} {ts : List Token} {x : Read Node m}
    {r : Reading (Option Node) k} (h : Reading.node hmk <$> x = .ok r)
    (hx : ∀ a, x = .ok a → Reads .item ts [a.value] a.rest) :
    Reads .item ts r.value.toList r.rest := by
  cases x with
  | error e => cases h
  | ok a =>
      cases h
      exact hx a rfl

theorem reads_of_readConstruct {t : Token} {rest : List Token} {parts : Parts rest.length}
    (hparts : ∀ ts h r, parts ts h = .ok r → Reads .item ts r.value.toList r.rest)
    {r : Reading (Option Node) (rest.length + 1)} (h : readConstruct t rest parts = .ok r) :
    Reads .item (t :: rest) r.value.toList r.rest := by
  unfold readConstruct at h
  dsimp only at h
  split at h
  case h_1 | h_2 | h_3 =>
    cases h
    exact .trivia (by simp [TokenKind.isTrivia, *])
  case h_4 =>
    cases h
    exact .identifier ‹_›
  case h_5 =>
    cases h
    exact .integer ‹_›
  case h_6 =>
    cases h
    exact .float ‹_›
  case h_7 =>
    cases h
    exact .string ‹_›
  case h_8 ht =>
    obtain ⟨⟨elements, after, hafter⟩, helements, h⟩ := bind_eq_ok h
    cases h
    exact .array ht (reads_of_readUntil hparts helements)
  case h_9 ht => exact reads_of_map_node h fun _ => reads_of_readCall hparts ht
  case h_10 ht => exact reads_of_map_node h fun _ => reads_of_readAssignment hparts ht
  case h_11 ht => exact reads_of_map_node h fun _ => reads_of_readIterator hparts ht
  case h_12 ht => exact reads_of_map_node h fun _ => reads_of_readConditional hparts ht
  case h_13 ht => exact reads_of_map_node h fun _ => reads_of_readResult hparts ht
  case h_14 ht => exact reads_of_map_node h fun _ => reads_of_readUse ht
  case h_15 ht => exact reads_of_map_node h fun _ => reads_of_readExport ht
  case h_16 ht =>
    obtain ⟨⟨name, after, hafter⟩, hname, h⟩ := bind_eq_ok h
    cases h
    obtain ⟨n, rfl, hn⟩ := exists_of_readName hname
    exact .create ht hn
  case h_17 ht => exact reads_of_map_node h fun _ => reads_of_readGet ht
  case h_18 ht => exact reads_of_map_node h fun _ => reads_of_readSet hparts ht
  case h_19 ht => exact reads_of_map_node h fun _ => reads_of_readFunction hparts ht
  all_goals cases h

theorem reads_of_readNode {ts : List Token} {r : Reading (Option Node) ts.length}
    (h : readNode ts = .ok r) : Reads .item ts r.value.toList r.rest := by
  induction ts using readNode.induct with
  | case1 =>
      rw [readNode] at h
      cases h
  | case2 t rest ih =>
      rw [readNode] at h
      exact reads_of_readConstruct (fun ts hts r => ih ts hts) h

theorem readsProgram_of_readProgram {ts : List Token} {nodes : List Node}
    (h : readProgram ts = .ok nodes) : ReadsProgram ts nodes := by
  induction ts using readProgram.induct generalizing nodes with
  | case1 =>
      rw [readProgram] at h
      cases h
      exact .nil
  | case2 t rest ih =>
      rw [readProgram] at h
      obtain ⟨⟨first, after, hafter⟩, hfirst, h⟩ := bind_eq_ok h
      obtain ⟨nodes, hnodes, h⟩ := bind_eq_ok h
      cases h
      exact .item (reads_of_readNode hfirst) (ih after hafter hnodes)

end LijsCompiler.Node
