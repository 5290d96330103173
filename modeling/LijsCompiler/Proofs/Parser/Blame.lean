import LijsCompiler.Proofs.Parser.Completeness

/-!
# What a refusal blames

The readers never make up a place.  A refusal blames the end of the tokens, one of the tokens, or the
tokens from the first of a construct to one behind it (`Refusal.Blames`).

One lemma for each reader says that it leaves tokens from the end of those it is given, or blames
some of them.  `readNode` ties the knot by induction on the number of tokens.
-/

namespace LijsCompiler

namespace ParseFault

def found? : ParseFault → Option TokenKind
  | nameMustBeIdentifier _ found | importPathNotString found | importBindingNotIdentifier found
  | exportNotIdentifier found | invalidObjectKey found | missingCheck found
  | parameterNotIdentifier found | expectedMark _ found | unexpectedToken found => some found
  | assignmentValue | tooManyOperands _ _ | unexpectedEnd _ | missingValue _ => none

/-- The mark that announces the construct which a fault is about. -/
def opening? : ParseFault → Option Mark
  | assignmentValue => some .assign
  | tooManyOperands _ _ => some .openParen
  | _ => none

end ParseFault

namespace Node

/-- The refusal blames the end of the tokens `ts` or some of them. -/
inductive Refusal.Blames (ts : List Token) : Refusal → Prop where
  | ended (expected : Expectation) : Blames ts (.ended expected)
  | token {fault : ParseFault} {t : Token} (ht : t ∈ ts) (hfound : fault.found? = some t.kind) :
      Blames ts (.token fault t)
  | trivia {construct : Construct} {t : Token} (ht : t ∈ ts) (htrivia : t.kind.isTrivia) :
      Blames ts (.token (.missingValue construct) t)
  | whole {fault : ParseFault} {m : Mark} {first last : Token} {rest : List Token}
      (hrest : first :: rest <:+ ts) (hopening : fault.opening? = some m)
      (hfirst : first.kind = .mark m) (hlast : last ∈ first :: rest) :
      Blames ts ⟨fault, some (first.span.join last.span)⟩

theorem Refusal.Blames.of_suffix {ts us : List Token} {r : Refusal} (h : r.Blames ts)
    (hsuffix : ts <:+ us) : r.Blames us := by
  cases h with
  | ended expected => exact .ended expected
  | token ht hfound => exact .token (hsuffix.mem ht) hfound
  | trivia ht htrivia => exact .trivia (hsuffix.mem ht) htrivia
  | whole hrest hopening hfirst hlast => exact .whole (hrest.trans hsuffix) hopening hfirst hlast

/-- The outcome of reading from `ts`: it leaves tokens from the end of `ts` or blames some of `ts`. -/
inductive Within (ts : List Token) {α : Type} {n : Nat} : Read α n → Prop where
  | ok {value : α} {rest : List Token} {h : rest.length < n} (hrest : rest <:+ ts) :
      Within ts (.ok ⟨value, rest, h⟩)
  | error {r : Refusal} (hr : r.Blames ts) : Within ts (.error r)

namespace Within

variable {ts us : List Token} {α β : Type} {m n : Nat}

theorem of_suffix {x : Read α n} (h : Within ts x) (hsuffix : ts <:+ us) : Within us x := by
  cases h with
  | ok hrest => exact .ok (hrest.trans hsuffix)
  | error hr => exact .error (hr.of_suffix hsuffix)

theorem bind {x : Read α m} {f : Reading α m → Read β n} (hx : Within ts x)
    (hf : ∀ value rest h, x = .ok ⟨value, rest, h⟩ → rest <:+ ts →
      Within ts (f ⟨value, rest, h⟩)) : Within ts (x >>= f) := by
  cases hx with
  | ok hrest => exact hf _ _ _ rfl hrest
  | error hr => exact .error hr

theorem node {x : Read Node m} (hx : Within ts x) (hm : m ≤ n) :
    Within ts (Reading.node hm <$> x) := by
  cases hx with
  | ok hrest => exact .ok hrest
  | error hr => exact .error hr

end Within

/-! ## The tokens of a construct that is refused as a whole -/

theorem exists_coveredSpan_cons (first : Token) (read : List Token) :
    ∃ last ∈ first :: read, coveredSpan (first :: read) = some (first.span.join last.span) := by
  refine ⟨(first :: read).getLast (by simp), List.getLast_mem _, ?_⟩
  rw [coveredSpan, List.getLast?_eq_some_getLast (by simp)]
  rfl

theorem readTokens_cons (t : Token) {tail rest : List Token}
    (h : rest.length < (t :: tail).length) :
    readTokens (t :: tail) rest = t :: readTokens tail rest := by
  unfold readTokens
  rw [List.length_cons, Nat.succ_sub (Nat.le_of_lt_succ h), List.take_succ_cons]

theorem blames_coveredSpan {fault : ParseFault} {m : Mark} {first : Token}
    {tail read : List Token} (hopening : fault.opening? = some m)
    (hfirst : first.kind = .mark m) (hread : ∀ t ∈ read, t ∈ tail) :
    (⟨fault, coveredSpan (first :: read)⟩ : Refusal).Blames (first :: tail) := by
  obtain ⟨last, hlast, hspan⟩ := exists_coveredSpan_cons first read
  rw [hspan]
  refine .whole (List.suffix_refl _) hopening hfirst ?_
  rcases List.mem_cons.1 hlast with rfl | hlast
  · exact List.mem_cons_self ..
  · exact List.mem_cons_of_mem _ (hread last hlast)

theorem exists_assign_of_reads {ts rest : List Token} {name : String} {value : Node}
    (h : Reads .item ts [.assignment name value] rest) :
    ∃ t tail, ts = t :: tail ∧ t.kind = .mark .assign := by
  cases h with
  | assignment ht => exact ⟨_, _, rfl, ht⟩

theorem exists_trivia_of_reads {ts rest : List Token} (h : Reads .item ts [] rest) :
    ∃ t tail, ts = t :: tail ∧ t.kind.isTrivia := by
  cases h with
  | trivia ht => exact ⟨_, _, rfl, ht⟩

/-! ## Names, keys and parameters -/

theorem within_readName (construct : Construct) (ts : List Token) :
    Within ts (readName construct ts) := by
  cases ts with
  | nil => exact .error (.ended _)
  | cons t rest =>
      unfold readName
      dsimp only
      split
      · exact .ok (List.suffix_cons t rest)
      · exact .error (.token (List.mem_cons_self ..) rfl)

theorem within_readKey (ts : List Token) : Within ts (readKey ts) := by
  cases ts with
  | nil => exact .error (.ended _)
  | cons t rest =>
      unfold readKey
      dsimp only
      split
      · exact .ok (List.suffix_cons t rest)
      · exact .ok (List.suffix_cons t rest)
      · exact .error (.token (List.mem_cons_self ..) rfl)

theorem within_readParams (ts : List Token) : Within ts (readParams ts) := by
  fun_induction readParams ts with
  | case1 => exact .error (.ended _)
  | case2 t rest _ => exact .ok (List.suffix_cons t rest)
  | case3 t rest name _ ih =>
      apply (ih.of_suffix (List.suffix_cons t rest)).bind
      intro names after _ _ hafter
      exact .ok hafter
  | case4 t rest _ _ _ ih =>
      apply (ih.of_suffix (List.suffix_cons t rest)).bind
      intro names after _ _ hafter
      exact .ok hafter
  | case5 => exact .error (.token (List.mem_cons_self ..) rfl)

/-! ## Values, lists and bodies -/

section

variable {n : Nat} (hparts : ∀ us : List Token, us.length ≤ n → Within us (readNode us))

include hparts

theorem within_readValue (construct : Construct) {ts : List Token} (hn : ts.length ≤ n) :
    Within ts (readValue (nodeParts n) construct ts hn) := by
  apply (hparts ts hn).bind
  intro found rest _ hfound hrest
  cases found with
  | some node => exact .ok hrest
  | none =>
      obtain ⟨t, tail, rfl, htrivia⟩ := exists_trivia_of_reads (reads_of_readNode hfound)
      exact .error (.trivia (List.mem_cons_self ..) htrivia)

theorem within_readUntil (closer : Mark) {ts : List Token} (hn : ts.length ≤ n) :
    Within ts (readUntil (nodeParts n) closer ts hn) := by
  induction ts, hn using readUntil.induct closer with
  | case1 =>
      rw [readUntil]
      exact .error (.ended _)
  | case2 t rest hn hclose _ =>
      rw [readUntil, if_pos hclose]
      exact .ok (List.suffix_cons t rest)
  | case3 t rest hn hclose _ ih =>
      rw [readUntil, if_neg hclose]
      apply (hparts _ hn).bind
      intro first after hlt _ hafter
      apply ((ih after hlt).of_suffix hafter).bind
      intro nodes final _ _ hfinal
      exact .ok hfinal

theorem within_readBody {ts : List Token} (hn : ts.length ≤ n) :
    Within ts (readBody (nodeParts n) ts hn) := by
  cases ts with
  | nil => exact .error (.ended _)
  | cons t rest =>
      rw [readBody]
      split
      · apply ((within_readUntil hparts .closeBrace _).of_suffix (List.suffix_cons t rest)).bind
        intro nodes after _ _ hafter
        exact .ok hafter
      · apply (hparts _ hn).bind
        intro node after _ _ hafter
        exact .ok hafter

/-! ## Constructs -/

theorem within_readResult {ts : List Token} (hn : ts.length ≤ n) :
    Within ts (readResult (nodeParts n) ts hn) := by
  cases ts with
  | nil => exact .ok (List.suffix_refl _)
  | cons t rest =>
      rw [readResult]
      split
      · exact .ok (List.suffix_refl _)
      · apply (hparts _ hn).bind
        intro value after _ _ hafter
        exact .ok hafter

/-- An assignment that is assigned is blamed from its own mark on. -/
theorem within_readAssignment {ts : List Token} (hn : ts.length ≤ n) :
    Within ts (readAssignment (nodeParts n) ts hn) := by
  apply (within_readName .binding ts).bind
  intro name ts₁ h₁ _ hts₁
  refine Within.of_suffix ?_ hts₁
  apply (within_readValue hparts .assignment _).bind
  intro value ts₂ h₂ hread hts₂
  cases value with
  | assignment _ _ =>
      have hreads := reads_of_readValue (fun _ _ _ => reads_of_readNode) hread
      obtain ⟨t, tail, rfl, ht⟩ := exists_assign_of_reads hreads
      dsimp only
      rw [readTokens_cons t h₂]
      exact .error (blames_coveredSpan rfl ht fun _ => List.mem_of_mem_take)
  | _ => exact .ok hts₂

theorem within_readSet {ts : List Token} (hn : ts.length ≤ n) :
    Within ts (readSet (nodeParts n) ts hn) := by
  apply (within_readName .object ts).bind
  intro name ts₁ _ _ hts₁
  apply ((within_readKey ts₁).of_suffix hts₁).bind
  intro key ts₂ _ _ hts₂
  apply ((within_readValue hparts .objectSet _).of_suffix hts₂).bind
  intro value ts₃ _ _ hts₃
  exact .ok hts₃

/-- A call with too many operands is blamed from its parenthesis on. -/
theorem within_readCall {opening : Token} (hopening : opening.kind = .mark .openParen)
    {ts : List Token} (hn : ts.length ≤ n) :
    Within (opening :: ts) (readCall (nodeParts n) opening ts hn) := by
  apply ((within_readName .functionCall ts).of_suffix (List.suffix_cons opening ts)).bind
  intro name ts₁ _ _ hts₁
  apply ((within_readUntil hparts .closeParen _).of_suffix hts₁).bind
  intro args ts₂ _ _ hts₂
  dsimp only
  split
  · exact .ok hts₂
  · split
    · exact .ok hts₂
    · exact .error (blames_coveredSpan rfl hopening fun _ => List.mem_of_mem_take)
    · exact .ok hts₂

theorem within_readFunction {ts : List Token} (hn : ts.length ≤ n) :
    Within ts (readFunction (nodeParts n) ts hn) := by
  apply (within_readName .function ts).bind
  intro name ts₁ h₁ _ hts₁
  cases ts₁ with
  | nil => exact .error (.ended _)
  | cons t rest =>
      dsimp only
      split
      · have hrest := (List.suffix_cons t rest).trans hts₁
        apply ((within_readParams rest).of_suffix hrest).bind
        intro params ts₂ _ _ hts₂
        apply ((within_readBody hparts _).of_suffix hts₂).bind
        intro body ts₃ _ _ hts₃
        exact .ok hts₃
      · exact .error (.token (hts₁.mem (List.mem_cons_self ..)) rfl)

theorem within_readIterator {ts : List Token} (hn : ts.length ≤ n) :
    Within ts (readIterator (nodeParts n) ts hn) := by
  apply (within_readValue hparts .iterator hn).bind
  intro source ts₁ _ _ hts₁
  apply ((within_readBody hparts _).of_suffix hts₁).bind
  intro body ts₂ _ _ hts₂
  exact .ok hts₂

theorem within_readElse {ts : List Token} (hn : ts.length ≤ n) :
    Within ts (readElse (nodeParts n) ts hn) := by
  cases ts with
  | nil => exact .ok (List.suffix_refl _)
  | cons t rest =>
      rw [readElse]
      split
      · apply ((within_readBody hparts _).of_suffix (List.suffix_cons t rest)).bind
        intro body after _ _ hafter
        exact .ok hafter
      · exact .ok (List.suffix_refl _)

theorem within_readOperand (check : Check) {ts : List Token} (hn : ts.length ≤ n) :
    Within ts (readOperand (nodeParts n) check ts hn) := by
  unfold readOperand
  split
  · apply (within_readValue hparts .condition hn).bind
    intro node rest _ _ hrest
    exact .ok hrest
  · exact .ok (List.suffix_refl _)

theorem within_readConditional {ts : List Token} (hn : ts.length ≤ n) :
    Within ts (readConditional (nodeParts n) ts hn) := by
  apply (within_readValue hparts .condition hn).bind
  intro left ts₁ h₁ _ hts₁
  cases ts₁ with
  | nil => exact .error (.ended _)
  | cons t rest =>
      dsimp only
      split
      · apply ((hparts (t :: rest) (by omega)).of_suffix hts₁).bind
        intro _ _ _ _ _
        exact .error (.token (hts₁.mem (List.mem_cons_self ..)) rfl)
      · have hrest := (List.suffix_cons t rest).trans hts₁
        apply ((within_readOperand hparts _ _).of_suffix hrest).bind
        intro right ts₂ _ _ hts₂
        apply ((within_readBody hparts _).of_suffix hts₂).bind
        intro pass ts₃ _ _ hts₃
        apply ((within_readElse hparts _).of_suffix hts₃).bind
        intro fail ts₄ _ _ hts₄
        exact .ok hts₄

end

theorem within_readGet (ts : List Token) : Within ts (readGet ts) := by
  apply (within_readName .object ts).bind
  intro name ts₁ _ _ hts₁
  apply ((within_readKey ts₁).of_suffix hts₁).bind
  intro key ts₂ _ _ hts₂
  exact .ok hts₂

theorem within_readExport (ts : List Token) : Within ts (readExport ts) := by
  cases ts with
  | nil => exact .error (.ended _)
  | cons t rest =>
      unfold readExport
      dsimp only
      split
      · exact .ok (List.suffix_cons t rest)
      · exact .error (.token (List.mem_cons_self ..) rfl)

theorem within_readUse (ts : List Token) : Within ts (readUse ts) := by
  cases ts with
  | nil => exact .error (.ended _)
  | cons t rest =>
      have hrest := List.suffix_cons t rest
      unfold readUse
      dsimp only
      split
      · cases rest with
        | nil => exact .ok hrest
        | cons a after =>
            have hafter := (List.suffix_cons a after).trans hrest
            dsimp only
            split
            · cases after with
              | nil => exact .error (.ended _)
              | cons b final =>
                  dsimp only
                  split
                  · exact .ok ((List.suffix_cons b final).trans hafter)
                  · exact .error (.token (hafter.mem (List.mem_cons_self ..)) rfl)
            · exact .ok hrest
      · exact .error (.token (List.mem_cons_self ..) rfl)

/-! ## Nodes and programs -/

theorem within_readConstruct {t : Token} {rest : List Token}
    (hparts : ∀ us : List Token, us.length ≤ rest.length → Within us (readNode us)) :
    Within (t :: rest) (readConstruct t rest (nodeParts rest.length)) := by
  have hrest := List.suffix_cons t rest
  unfold readConstruct
  dsimp only
  cases hkind : t.kind with
  | lineBreak | lineComment | blockComment | identifier | integer | float | string =>
      exact .ok hrest
  | mark m =>
      cases m with
      | openBracket =>
          apply ((within_readUntil hparts .closeBracket _).of_suffix hrest).bind
          intro elements after _ _ hafter
          exact .ok hafter
      | openParen => exact (within_readCall hparts hkind _).node _
      | assign => exact ((within_readAssignment hparts _).of_suffix hrest).node _
      | loop => exact ((within_readIterator hparts _).of_suffix hrest).node _
      | condition => exact ((within_readConditional hparts _).of_suffix hrest).node _
      | result => exact ((within_readResult hparts _).of_suffix hrest).node _
      | closeBracket | openBrace | closeBrace | closeParen =>
          exact .error (.token (List.mem_cons_self ..) (congrArg some hkind.symm))
  | keyword k =>
      cases k with
      | useModule => exact ((within_readUse rest).of_suffix hrest).node _
      | exportName => exact ((within_readExport rest).of_suffix hrest).node _
      | make =>
          apply ((within_readName .object rest).of_suffix hrest).bind
          intro name after _ _ hafter
          exact .ok hafter
      | get => exact ((within_readGet rest).of_suffix hrest).node _
      | set => exact ((within_readSet hparts _).of_suffix hrest).node _
      | define => exact ((within_readFunction hparts _).of_suffix hrest).node _
      | asName | otherwise | check =>
          exact .error (.token (List.mem_cons_self ..) (congrArg some hkind.symm))

theorem within_readNode (ts : List Token) : Within ts (readNode ts) := by
  obtain ⟨bound, hbound⟩ : ∃ bound, ts.length < bound := ⟨_, Nat.lt_succ_self _⟩
  induction bound generalizing ts with
  | zero => cases hbound
  | succ bound ih =>
      cases ts with
      | nil =>
          rw [readNode]
          exact .error (.ended _)
      | cons t rest =>
          rw [readNode_cons]
          apply within_readConstruct
          intro us hus
          exact ih us (Nat.lt_of_le_of_lt hus (Nat.lt_of_succ_lt_succ hbound))

theorem blames_of_readProgram {ts : List Token} {r : Refusal} (h : readProgram ts = .error r) :
    r.Blames ts := by
  fun_induction readProgram ts with
  | case1 => cases h
  | case2 t rest ih =>
      have hread := within_readNode (t :: rest)
      generalize readNode (t :: rest) = x at hread h
      cases hread with
      | error hr =>
          cases h
          exact hr
      | @ok first after hlt hafter =>
          cases htail : readProgram after with
          | ok nodes =>
              simp only [ok_bind, htail] at h
              cases h
          | error found =>
              simp only [ok_bind, htail] at h
              cases h
              exact (ih after hlt htail).of_suffix hafter

end Node

/-- An error comes from a refusal that blames the tokens or their end. -/
theorem exists_blames_of_parse {ts : List Token} {e : ParseError} (h : parse ts = .error e) :
    ∃ r : Node.Refusal, r.Blames ts ∧ e = r.locate ts := by
  unfold parse at h
  cases hread : Node.readProgram ts with
  | ok nodes =>
      rw [hread] at h
      cases h
  | error r =>
      rw [hread] at h
      cases h
      exact ⟨r, Node.blames_of_readProgram hread, rfl⟩

end LijsCompiler
