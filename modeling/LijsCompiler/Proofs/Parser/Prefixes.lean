import LijsCompiler.Proofs.Parser.Completeness
import LijsCompiler.Proofs.Parser.Lookahead

/-!
# Prefixes of programs

A program that is cut off somewhere is a program, or its tokens end too early; no other error comes
up before its end.  So an error that is not about the end of the tokens stays, whatever tokens
follow (`exists_parse_append_eq_error`).

If a form reads `ts ++ us`, then its reader does not refuse `ts` alone (`admits_of_reads`).  That is
an induction on the derivation, in which one argument carries every construct of several parts: a
part that is read from `ts` and leaves a token is the part of the whole list, since no rule looks
further than that token, and a part that leaves none is followed by a reader that finds no tokens.
-/

namespace LijsCompiler.Node

/-- The outcome is a result, or the tokens end too early for one. -/
inductive Unrefused {α : Type} : Except Refusal α → Prop where
  | ok (a : α) : Unrefused (.ok a)
  | ended (expected : Expectation) : Unrefused (.error (.ended expected))

def Admits : Form → List Token → Prop
  | .item, ts => Unrefused (readNode ts)
  | .upTo closer, ts =>
      ∀ n (hn : ts.length ≤ n), Unrefused (readUntil (nodeParts n) closer ts hn)
  | .body, ts => ∀ n (hn : ts.length ≤ n), Unrefused (readBody (nodeParts n) ts hn)
  | .operand check, ts =>
      ∀ n (hn : ts.length ≤ n), Unrefused (readOperand (nodeParts n) check ts hn)

namespace Unrefused

variable {α β : Type} {k : Nat} {ts us after : List Token} {nodes : List Node}

theorem bind {x : Except Refusal α} {f : α → Except Refusal β} (hx : Unrefused x)
    (hf : ∀ a, x = .ok a → Unrefused (f a)) : Unrefused (x >>= f) := by
  cases hx with
  | ok a => exact hf a rfl
  | ended expected => exact .ended expected

theorem map {x : Except Refusal α} (hx : Unrefused x) (f : α → β) : Unrefused (f <$> x) := by
  cases hx with
  | ok a => exact .ok _
  | ended expected => exact .ended expected

/-- After a part that all the tokens `ts ++ us` have: if `ts` alone leaves a token, then it is that
part. -/
theorem bind_of_reads {form : Form} {x : Read α k} {f : Reading α k → Except Refusal β}
    (hx : Unrefused x) (nodesOf : α → List Node)
    (hsound : ∀ r, x = .ok r → Reads form ts (nodesOf r.value) r.rest)
    (hwhole : Reads form (ts ++ us) nodes after)
    (hnil : ∀ value h, Reads form ts (nodesOf value) [] → Unrefused (f ⟨value, [], h⟩))
    (hcons : ∀ value t rest h, nodesOf value = nodes → t :: rest ++ us = after →
      Unrefused (f ⟨value, t :: rest, h⟩)) : Unrefused (x >>= f) := by
  apply hx.bind
  rintro ⟨value, _ | ⟨t, rest⟩, h⟩ heq
  · exact hnil value h (hsound _ heq)
  · obtain ⟨hnodes, hrest⟩ := eq_of_reads (reads_append_of_cons (hsound _ heq) us) hwhole
    exact hcons value t rest h hnodes hrest

end Unrefused

theorem nodeParts_sound {n : Nat} (ts : List Token) (hn : ts.length ≤ n)
    (r : Reading (Option Node) ts.length) (h : nodeParts n ts hn = .ok r) :
    Reads .item ts r.value.toList r.rest :=
  reads_of_readNode h

theorem unrefused_readNode_nil : Unrefused (readNode []) := by
  rw [readNode]
  exact .ended _

theorem unrefused_readUntil_nil {n : Nat} {parts : Parts n} {closer : Mark} (hn : 0 ≤ n) :
    Unrefused (readUntil parts closer [] hn) := by
  rw [readUntil]
  exact .ended _

/-! ## Names, keys and parameters -/

section

variable {β : Type} {ts us rest : List Token} {t : Token}

/-- After a reader that takes the one token `t`. -/
theorem unrefused_bind_of_cons {α : Type} {value : α}
    {reader : (ts : List Token) → Read α ts.length} {f : Reading α ts.length → Except Refusal β}
    (hnil : Unrefused (reader []))
    (hcons : ∀ tail, reader (t :: tail) = .ok ⟨value, tail, Nat.lt_add_one _⟩)
    (hts : ts ++ us = t :: rest)
    (hf : ∀ tail hlt, tail ++ us = rest → Unrefused (f ⟨value, tail, hlt⟩)) :
    Unrefused (reader ts >>= f) := by
  cases ts with
  | nil => exact hnil.bind fun r _ => absurd r.shorter (Nat.not_lt_zero _)
  | cons s tail =>
      obtain ⟨rfl, htail⟩ := List.cons.inj hts
      rw [hcons]
      exact hf tail _ htail

theorem unrefused_readName_bind {construct : Construct} {name : String}
    {f : Reading String ts.length → Except Refusal β} (h : t.kind = .identifier name)
    (hts : ts ++ us = t :: rest)
    (hf : ∀ tail hlt, tail ++ us = rest → Unrefused (f ⟨name, tail, hlt⟩)) :
    Unrefused (readName construct ts >>= f) :=
  unrefused_bind_of_cons (.ended _) (fun _ => readName_cons h) hts hf

theorem unrefused_readKey_bind {key : Node} {f : Reading Node ts.length → Except Refusal β}
    (h : keyOf? t.kind = some key) (hts : ts ++ us = t :: rest)
    (hf : ∀ tail hlt, tail ++ us = rest → Unrefused (f ⟨key, tail, hlt⟩)) :
    Unrefused (readKey ts >>= f) :=
  unrefused_bind_of_cons (.ended _) (fun _ => readKey_cons h) hts hf

theorem unrefused_readParams {names : List String} (h : ReadsParams (ts ++ us) names rest) :
    Unrefused (readParams ts) := by
  induction ts generalizing names with
  | nil => exact .ended _
  | cons s tail ih =>
      cases h with
      | close h =>
          simp only [readParams, h]
          exact .ok _
      | name h hnames =>
          simp only [readParams, h]
          exact (ih hnames).bind fun _ _ => .ok _
      | trivia h hnames =>
          unfold readParams
          split
          · exact .ok _
          · exact (ih hnames).bind fun _ _ => .ok _
          · rw [if_pos h]
            exact (ih hnames).bind fun _ _ => .ok _

theorem unrefused_readParams_bind {names : List String}
    {f : Reading (List String) ts.length → Except Refusal β} (h : ReadsParams (ts ++ us) names rest)
    (hf : ∀ tail hlt, tail ++ us = rest → Unrefused (f ⟨names, tail, hlt⟩)) :
    Unrefused (readParams ts >>= f) := by
  apply (unrefused_readParams h).bind
  rintro ⟨found, tail, hlt⟩ hread
  obtain ⟨_, hwhole⟩ := readParams_of_readsParams h
  obtain ⟨_, hsame⟩ := readParams_of_readsParams
    (readsParams_append (readsParams_of_readParams hread) us)
  rw [hwhole] at hsame
  cases hsame
  exact hf tail hlt rfl

end

/-! ## Values, lists and bodies -/

section

variable {ts us after : List Token} {value : Node} {n : Nat}

/-- A line break or a comment is skipped whatever follows it. -/
theorem unrefused_readValue {construct : Construct} (hwhole : Reads .item (ts ++ us) [value] after)
    (h : Admits .item ts) (hn : ts.length ≤ n) :
    Unrefused (readValue (nodeParts n) construct ts hn) := by
  apply Unrefused.bind h
  rintro ⟨found, rest, hlt⟩ hread
  cases found with
  | some node => exact .ok _
  | none =>
      have hreads : Reads .item ts [] rest := reads_of_readNode hread
      cases hreads with
      | trivia htrivia => cases (eq_of_reads (.trivia htrivia) hwhole).1

theorem unrefused_readValue_bind {β : Type} {construct : Construct}
    (hwhole : Reads .item (ts ++ us) [value] after) (h : Admits .item ts) (hn : ts.length ≤ n)
    {f : Reading Node ts.length → Except Refusal β}
    (hnil : ∀ found hlt, Reads .item ts [found] [] → Unrefused (f ⟨found, [], hlt⟩))
    (hcons : ∀ t rest hlt, t :: rest ++ us = after → Unrefused (f ⟨value, t :: rest, hlt⟩)) :
    Unrefused (readValue (nodeParts n) construct ts hn >>= f) := by
  apply (unrefused_readValue hwhole h hn).bind_of_reads (fun found => [found])
    (fun _ => reads_of_readValue nodeParts_sound) hwhole hnil
  intro found t rest hlt hfound hrest
  cases hfound
  exact hcons t rest hlt hrest

end

/-! ## Constructs

Each lemma is about the tokens after the token that announces the construct. -/

section

variable {ts us rest after : List Token} {n : Nat}

/-- Only an assignment begins with its mark. -/
theorem kind_eq_assignment_iff {t : Token} {value : Node}
    (h : Reads .item (t :: rest) [value] after) :
    value.kind = .assignment ↔ t.kind = .mark .assign := by
  cases h <;> simp_all [kind]

theorem unrefused_readAssignment {s : Token} {name : String} {value : Node}
    (hname : s.kind = .identifier name) (hvalue : Reads .item rest [value] after)
    (hkind : value.kind ≠ .assignment) (ih : ∀ {ts}, ts ++ us = rest → Admits .item ts)
    (hts : ts ++ us = s :: rest) (hn : ts.length ≤ n) :
    Unrefused (readAssignment (nodeParts n) ts hn) := by
  apply unrefused_readName_bind hname hts
  rintro ts₁ h₁ rfl
  apply unrefused_readValue_bind hvalue (ih rfl)
  · -- what is read of the value begins as the value does, so it is no assignment either
    intro found hlt hfound
    obtain ⟨t, tail, rfl⟩ := exists_cons_of_accepts (accepts_of_reads hfound)
    have hassign := (kind_eq_assignment_iff hfound).trans (kind_eq_assignment_iff hvalue).symm
    dsimp only
    split
    · exact absurd (hassign.1 rfl) hkind
    · exact .ok _
  · intro t tail hlt _
    dsimp only
    split
    · exact absurd rfl hkind
    · exact .ok _

theorem unrefused_readSet {s k : Token} {name : String} {key value : Node}
    (hname : s.kind = .identifier name) (hkey : keyOf? k.kind = some key)
    (hvalue : Reads .item rest [value] after) (ih : ∀ {ts}, ts ++ us = rest → Admits .item ts)
    (hts : ts ++ us = s :: k :: rest) (hn : ts.length ≤ n) :
    Unrefused (readSet (nodeParts n) ts hn) := by
  apply unrefused_readName_bind hname hts
  intro ts₁ h₁ hts₁
  apply unrefused_readKey_bind hkey hts₁
  rintro ts₂ h₂ rfl
  exact (unrefused_readValue hvalue (ih rfl) _).bind fun _ _ => .ok _

theorem unrefused_readCall {opening s : Token} {name : String} {args : List Node}
    (hname : s.kind = .identifier name) (hargs : Reads (.upTo .closeParen) rest args after)
    (hcount : Arithmetic.ofName? name = none ∨ args.length ≤ 2)
    (ih : ∀ {ts}, ts ++ us = rest → Admits (.upTo .closeParen) ts)
    (hts : ts ++ us = s :: rest) (hn : ts.length ≤ n) :
    Unrefused (readCall (nodeParts n) opening ts hn) := by
  apply unrefused_readName_bind hname hts
  rintro ts₁ h₁ rfl
  apply (ih rfl n _).bind
  -- the arguments are closed by a mark, so that they are all there, also where no token is left
  rintro ⟨found, ts₂, h₂⟩ hfound
  have hreads := reads_of_readUntil nodeParts_sound hfound
  obtain ⟨rfl, -⟩ := eq_of_reads hargs (readsUpTo_append hreads us)
  dsimp only
  split
  · exact .ok _
  · split
    · exact .ok _
    · simp_all
    · exact .ok _

theorem unrefused_readFunction {s b : Token} {inner : List Token} {name : String}
    {params : List String} (hname : s.kind = .identifier name)
    (hbracket : b.kind = .mark .openBracket) (hparams : ReadsParams rest params inner)
    (ih : ∀ {ts}, ts ++ us = inner → Admits .body ts)
    (hts : ts ++ us = s :: b :: rest) (hn : ts.length ≤ n) :
    Unrefused (readFunction (nodeParts n) ts hn) := by
  apply unrefused_readName_bind hname hts
  intro ts₁ h₁ hts₁
  cases ts₁ with
  | nil => exact .ended _
  | cons t tail =>
      obtain ⟨rfl, rfl⟩ := List.cons.inj hts₁
      dsimp only
      rw [if_pos hbracket]
      apply unrefused_readParams_bind hparams
      intro ts₂ h₂ hts₂
      exact (ih hts₂ n _).bind fun _ _ => .ok _

theorem unrefused_readIterator {inner : List Token} {source : Node}
    (hsource : Reads .item (ts ++ us) [source] inner) (ih : Admits .item ts)
    (ihbody : ∀ {ts}, ts ++ us = inner → Admits .body ts) (hn : ts.length ≤ n) :
    Unrefused (readIterator (nodeParts n) ts hn) := by
  apply unrefused_readValue_bind hsource ih
  · intro _ _ _
    exact .ended _
  · intro t tail hlt htail
    exact (ihbody htail n _).bind fun _ _ => .ok _

/-- What stands before the branches of a condition is not refused, if the rest of it is not. -/
theorem unrefused_readConditional {c : Token} {ts₁ ts₂ ts₃ : List Token} {check : Check}
    {left : Node} {right pass : List Node} (hleft : Reads .item (ts ++ us) [left] (c :: ts₁))
    (hcheck : c.kind = .keyword (.check check)) (hright : Reads (.operand check) ts₁ right ts₂)
    (hpass : Reads .body ts₂ pass ts₃) (ihleft : Admits .item ts)
    (ihright : ∀ {ts}, ts ++ us = ts₁ → Admits (.operand check) ts)
    (ihpass : ∀ {ts}, ts ++ us = ts₂ → Admits .body ts) (hn : ts.length ≤ n)
    (helse : ∀ t rest, t :: rest ++ us = ts₃ → ∀ hn : (t :: rest).length ≤ n,
      Unrefused (readElse (nodeParts n) (t :: rest) hn)) :
    Unrefused (readConditional (nodeParts n) ts hn) := by
  have hcheck? : c.kind.check? = some check := by rw [hcheck]; rfl
  apply unrefused_readValue_bind hleft ihleft
  · intro _ _ _
    exact .ended _
  · intro t tail h₁ htail
    obtain ⟨rfl, rfl⟩ := List.cons.inj htail
    dsimp only
    simp only [hcheck?]
    apply (ihright rfl n _).bind_of_reads Option.toList
      (fun _ => reads_of_readOperand nodeParts_sound) hright
    · intro _ _ _
      exact .ended _
    · rintro found t₂ rest₂ h₂ - rfl
      apply (ihpass rfl n _).bind_of_reads id (fun _ => reads_of_readBody nodeParts_sound) hpass
      · intro _ _ _
        exact .ok _
      · rintro body t₃ rest₃ h₃ - hrest₃
        exact (helse t₃ rest₃ hrest₃ _).bind fun _ _ => .ok _

theorem unrefused_readResult (h : ts ≠ [] → nextKind? ts ≠ some .lineBreak → Admits .item ts)
    (hn : ts.length ≤ n) : Unrefused (readResult (nodeParts n) ts hn) := by
  cases ts with
  | nil => exact .ok _
  | cons t rest =>
      rw [readResult]
      split
      · exact .ok _
      · rename_i hbreak
        exact Unrefused.bind (h (by simp) (by simpa using hbreak)) fun _ _ => .ok _

theorem unrefused_readUse {p : Token} {path : String} (hpath : p.kind = .string path)
    (hbinding : ∀ a b tail, a :: b :: tail ++ us = rest → a.kind = .keyword .asName →
      ∃ name, b.kind = .identifier name)
    (hts : ts ++ us = p :: rest) : Unrefused (readUse ts) := by
  cases ts with
  | nil => exact .ended _
  | cons t tail =>
      obtain ⟨rfl, rfl⟩ := List.cons.inj hts
      simp only [readUse, hpath]
      rcases tail with _ | ⟨a, _ | ⟨b, tail⟩⟩
      · exact .ok _
      · dsimp only
        split
        · exact .ended _
        · exact .ok _
      · dsimp only
        split
        · rename_i has
          obtain ⟨name, hname⟩ := hbinding a b tail rfl has
          simp only [hname]
          exact .ok _
        · exact .ok _

end

/-! ## Nodes and programs -/

theorem admits_item_of_cons {t : Token} {rest ts us : List Token} (hts : ts ++ us = t :: rest)
    (h : ∀ tail, tail ++ us = rest →
      Unrefused (readConstruct t tail (nodeParts tail.length))) : Admits .item ts := by
  cases ts with
  | nil => exact unrefused_readNode_nil
  | cons s tail =>
      obtain ⟨rfl, hrest⟩ := List.cons.inj hts
      rw [Admits, readNode_cons]
      exact h tail hrest

/-- If a form reads a list, then its reader does not refuse the front of that list. -/
theorem admits_of_reads {form : Form} {all rest : List Token} {nodes : List Node}
    (h : Reads form all nodes rest) {ts us : List Token} (hts : ts ++ us = all) :
    Admits form ts := by
  induction h generalizing ts with
  | @trivia t rest h =>
      refine admits_item_of_cons hts fun tail _ => ?_
      cases hkind : t.kind with
      | lineBreak | lineComment | blockComment =>
          simp only [readConstruct, hkind]
          exact .ok _
      | _ => simp [hkind, TokenKind.isTrivia] at h
  | identifier h | integer h | float h | string h =>
      refine admits_item_of_cons hts fun tail _ => ?_
      simp only [readConstruct, h]
      exact .ok _
  | array h _ ih =>
      refine admits_item_of_cons hts fun tail htail => ?_
      simp only [readConstruct, h]
      exact (ih htail _ _).bind fun _ _ => .ok _
  | assignment h hname hvalue hkind ih =>
      refine admits_item_of_cons hts fun tail htail => ?_
      simp only [readConstruct, h]
      exact (unrefused_readAssignment hname hvalue hkind ih htail _).map _
  | create h hname =>
      refine admits_item_of_cons hts fun tail htail => ?_
      simp only [readConstruct, h]
      exact unrefused_readName_bind hname htail fun _ _ _ => .ok _
  | get h hname hkey =>
      refine admits_item_of_cons hts fun tail htail => ?_
      simp only [readConstruct, h]
      refine Unrefused.map ?_ _
      apply unrefused_readName_bind hname htail
      intro ts₁ _ hts₁
      exact unrefused_readKey_bind hkey hts₁ fun _ _ _ => .ok _
  | set h hname hkey hvalue ih =>
      refine admits_item_of_cons hts fun tail htail => ?_
      simp only [readConstruct, h]
      exact (unrefused_readSet hname hkey hvalue ih htail _).map _
  | @useModule _ _ rest _ h hpath hnext =>
      refine admits_item_of_cons hts fun tail htail => ?_
      simp only [readConstruct, h]
      refine (unrefused_readUse hpath ?_ htail).map _
      rintro a b tail rfl has
      exact absurd (congrArg some has) hnext
  | useModuleAs h hpath has hbinding =>
      refine admits_item_of_cons hts fun tail htail => ?_
      simp only [readConstruct, h]
      refine (unrefused_readUse hpath ?_ htail).map _
      intro a b tail heq _
      cases heq
      exact ⟨_, hbinding⟩
  | exportName h hname =>
      refine admits_item_of_cons hts fun tail htail => ?_
      simp only [readConstruct, h]
      refine Unrefused.map ?_ _
      cases tail with
      | nil => exact .ended _
      | cons s tail =>
          cases htail
          simp only [readExport, hname]
          exact .ok _
  | function h hname hbracket hparams _ ih =>
      refine admits_item_of_cons hts fun tail htail => ?_
      simp only [readConstruct, h]
      exact (unrefused_readFunction hname hbracket hparams ih htail _).map _
  | call h hname hargs hcall ih =>
      refine admits_item_of_cons hts fun tail htail => ?_
      simp only [readConstruct, h]
      have hcount := hcall.imp_right fun hone => Nat.le_succ_of_le hone
      exact (unrefused_readCall hname hargs hcount ih htail _).map _
  | arithmetic h hname _ hargs ih =>
      refine admits_item_of_cons hts fun tail htail => ?_
      simp only [readConstruct, h]
      exact (unrefused_readCall hname hargs (.inr (Nat.le_refl 2)) ih htail _).map _
  | iterator h hsource _ ihsource ihbody =>
      refine admits_item_of_cons hts fun tail htail => ?_
      subst htail
      simp only [readConstruct, h]
      exact (unrefused_readIterator hsource (ihsource rfl) ihbody _).map _
  | conditional h hleft hcheck hright hpass hnext ihleft ihright ihpass =>
      refine admits_item_of_cons hts fun tail htail => ?_
      subst htail
      simp only [readConstruct, h]
      refine (unrefused_readConditional hleft hcheck hright hpass (ihleft rfl) ihright ihpass _
        ?_).map _
      rintro t rest rfl hn
      rw [readElse, if_neg (by simpa using hnext)]
      exact .ok _
  | conditionalElse h hleft hcheck hright hpass helse _ ihleft ihright ihpass ihfail =>
      refine admits_item_of_cons hts fun tail htail => ?_
      subst htail
      simp only [readConstruct, h]
      refine (unrefused_readConditional hleft hcheck hright hpass (ihleft rfl) ihright ihpass _
        ?_).map _
      intro t rest hrest hn
      cases hrest
      rw [readElse, if_pos helse]
      exact (ihfail rfl _ _).bind fun _ _ => .ok _
  | resultAlone h hnext =>
      refine admits_item_of_cons hts fun tail htail => ?_
      subst htail
      simp only [readConstruct, h]
      refine (unrefused_readResult (fun hne hbreak => ?_) _).map _
      rw [nextKind?_append hne] at hnext
      exact absurd hnext (by simp [hne, hbreak])
  | result h _ _ ih =>
      refine admits_item_of_cons hts fun tail htail => ?_
      simp only [readConstruct, h]
      exact (unrefused_readResult (fun _ _ => ih htail) _).map _
  | done h =>
      intro n hn
      cases ts with
      | nil => exact unrefused_readUntil_nil hn
      | cons t tail =>
          cases hts
          rw [readUntil, if_pos h]
          exact .ok _
  | more hnext hfirst _ ihfirst ihnodes =>
      intro n hn
      subst hts
      cases ts with
      | nil => exact unrefused_readUntil_nil hn
      | cons t tail =>
          rw [readUntil, if_neg (by simpa using hnext)]
          apply (ihfirst rfl).bind_of_reads Option.toList (fun _ => reads_of_readNode) hfirst
          · intro _ _ _
            exact (unrefused_readUntil_nil _).bind fun _ _ => .ok _
          · rintro first s rest hlt - hrest
            exact (ihnodes hrest _ _).bind fun _ _ => .ok _
  | braces h _ ih =>
      intro n hn
      cases ts with
      | nil => exact .ended _
      | cons t tail =>
          obtain ⟨rfl, htail⟩ := List.cons.inj hts
          rw [readBody, if_pos h]
          exact (ih htail _ _).bind fun _ _ => .ok _
  | single hnext _ ih =>
      intro n hn
      subst hts
      cases ts with
      | nil => exact .ended _
      | cons t tail =>
          rw [readBody, if_neg (by simpa using hnext)]
          exact Unrefused.bind (ih rfl) fun _ _ => .ok _
  | operand hcheck hright ih =>
      intro n hn
      subst hts
      rw [readOperand, if_pos hcheck]
      exact (unrefused_readValue hright (ih rfl) hn).bind fun _ _ => .ok _
  | noOperand hcheck =>
      intro n hn
      rw [readOperand, if_neg (by simp [hcheck])]
      exact .ok _

theorem unrefused_readProgram {all : List Token} {program : List Node}
    (h : ReadsProgram all program) {ts us : List Token} (hts : ts ++ us = all) :
    Unrefused (readProgram ts) := by
  have hnil : Unrefused (readProgram []) := by
    rw [readProgram]
    exact .ok _
  induction h generalizing ts with
  | nil =>
      obtain ⟨rfl, -⟩ := List.append_eq_nil_iff.1 hts
      exact hnil
  | item hfirst _ ih =>
      subst hts
      cases ts with
      | nil => exact hnil
      | cons t tail =>
          rw [readProgram]
          apply Unrefused.bind_of_reads (admits_of_reads hfirst rfl) Option.toList
            (fun _ => reads_of_readNode) hfirst
          · intro _ _ _
            exact hnil.bind fun _ _ => .ok _
          · rintro first s rest hlt - hrest
            exact (ih hrest).bind fun _ _ => .ok _

end LijsCompiler.Node

namespace LijsCompiler

/-- The front of a program is a program, or its tokens end too early. -/
theorem parse_of_parse_append {ts us : List Token} {program : List Node}
    (h : parse (ts ++ us) = .ok program) :
    (∃ nodes, parse ts = .ok nodes) ∨
      ∃ e expected, parse ts = .error e ∧ e.fault = .unexpectedEnd expected := by
  have hread := Node.unrefused_readProgram (parse_eq_ok_iff.1 h) rfl
  unfold parse
  generalize Node.readProgram ts = outcome at hread ⊢
  cases hread with
  | ok nodes => exact .inl ⟨nodes, rfl⟩
  | ended expected => exact .inr ⟨_, expected, rfl, rfl⟩

/-- No tokens repair an error that is not about the end of the tokens, and wherever a program is cut
off, the tokens in front are a program or end too early. -/
theorem exists_parse_append_eq_error :
    (∀ (ts : List Token) (e : ParseError), parse ts = .error e →
      (∀ expected, e.fault ≠ .unexpectedEnd expected) →
      ∀ rest : List Token, ∃ e' : ParseError, parse (ts ++ rest) = .error e') ∧
    ∀ (ts rest : List Token) (program : List Node), parse (ts ++ rest) = .ok program →
      (∃ nodes, parse ts = .ok nodes) ∨
        ∃ e expected, parse ts = .error e ∧ e.fault = .unexpectedEnd expected := by
  constructor
  · intro ts e herror hfault rest
    cases hall : parse (ts ++ rest) with
    | error e' => exact ⟨e', rfl⟩
    | ok program =>
        rcases parse_of_parse_append hall with ⟨nodes, hok⟩ | ⟨_, expected, hended, heq⟩
        · rw [herror] at hok
          cases hok
        · rw [herror] at hended
          cases hended
          exact absurd heq (hfault expected)
  · intro ts rest program h
    exact parse_of_parse_append h

/-- In `$a $b use 'm'` the inner assignment goes on with `as n`, and is refused all the same;
`? a exists x` ends too early if it is cut off before `x`. -/
theorem exists_parse_append_eq_error_use_as :
    let ts : List Token :=
      [⟨.mark .assign, ⟨0, 1⟩⟩, ⟨.identifier "a", ⟨1, 2⟩⟩, ⟨.mark .assign, ⟨3, 4⟩⟩,
        ⟨.identifier "b", ⟨4, 5⟩⟩, ⟨.keyword .useModule, ⟨6, 10⟩⟩, ⟨.string "m", ⟨10, 13⟩⟩]
    let rest : List Token := [⟨.keyword .asName, ⟨14, 17⟩⟩, ⟨.identifier "n", ⟨17, 18⟩⟩]
    let us : List Token :=
      [⟨.mark .condition, ⟨0, 1⟩⟩, ⟨.identifier "a", ⟨2, 3⟩⟩, ⟨.keyword (.check .present), ⟨4, 11⟩⟩]
    parse ts = .error ⟨.assignmentValue, ⟨3, 13⟩⟩ ∧
      (∃ e, parse (ts ++ rest) = .error e) ∧
      parse (us ++ [⟨.identifier "x", ⟨11, 12⟩⟩]) =
        .ok [.conditional .present (.identifier "a") none [.identifier "x"] none] ∧
      ((∃ nodes, parse us = .ok nodes) ∨
        ∃ e expected, parse us = .error e ∧ e.fault = .unexpectedEnd expected) := by
  intro ts rest us
  have hts : parse ts = .error ⟨.assignmentValue, ⟨3, 13⟩⟩ := by
    simp only [ts, parse, Node.readProgram, Node.readNode_cons, Node.readConstruct,
      Node.readAssignment, Node.readName, Node.readValue, Node.nodeParts, Node.readUse, Node.ok_bind]
    rfl
  have hus : parse (us ++ [⟨.identifier "x", ⟨11, 12⟩⟩]) =
      .ok [.conditional .present (.identifier "a") none [.identifier "x"] none] := by cbv
  have hfinal := exists_parse_append_eq_error.1 ts _ hts (by simp) rest
  exact ⟨hts, hfinal, hus, exists_parse_append_eq_error.2 us _ _ hus⟩

end LijsCompiler
