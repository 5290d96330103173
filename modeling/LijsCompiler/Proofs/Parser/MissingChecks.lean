import LijsCompiler.Diagnostic
import LijsCompiler.Proofs.Parser.Lines

/-!
# Conditions without a check

Where a condition has no check after its first operand, what stands there is read before the
condition is refused.  So the missing check is reported only if an item begins there; otherwise the
error is that of the tokens there, as if they stood alone (`parse_without_check`).
-/

namespace LijsCompiler

namespace Node

theorem readProgram_eq_error {ts : List Token} {r : Refusal} (h : readNode ts = .error r)
    (hne : ts ≠ []) : readProgram ts = .error r := by
  cases ts with
  | nil => exact absurd rfl hne
  | cons t rest =>
      rw [readProgram, h]
      rfl

/-- No item can be read exactly if the grammar derives none. -/
theorem exists_readNode_eq_error_iff {ts : List Token} :
    (∃ r, readNode ts = .error r) ↔ ¬ ∃ nodes after, Reads .item ts nodes after := by
  constructor
  · rintro ⟨r, hr⟩ ⟨nodes, after, hreads⟩
    obtain ⟨found, hlt, hread, -⟩ := accepts_of_reads hreads
    rw [hr] at hread
    cases hread
  · intro hnone
    cases hread : readNode ts with
    | error r => exact ⟨r, rfl⟩
    | ok found => exact absurd ⟨_, _, reads_of_readNode hread⟩ hnone

section

variable {q t : Token} {ts rest : List Token} {left : Node} {hlt : (t :: rest).length < ts.length}

/-- What stands in the place of a check is read and then refused. -/
theorem readConditional_without_check
    (hleft : readNode ts = .ok ⟨some left, t :: rest, hlt⟩) (ht : t.kind.check? = none) {n : Nat}
    (hn : ts.length ≤ n) :
    readConditional (nodeParts n) ts hn =
      readNode (t :: rest) >>= fun _ => .error (.token (.missingCheck t.kind) t) := by
  have hvalue : readValue (nodeParts n) .condition ts hn = .ok ⟨left, t :: rest, hlt⟩ := by
    have hparts : nodeParts n ts hn = .ok ⟨some left, t :: rest, hlt⟩ := hleft
    rw [readValue, hparts]
    rfl
  simp only [readConditional, hvalue, ok_bind]
  split
  · rfl
  · rename_i check hcheck
    rw [ht] at hcheck
    cases hcheck

theorem readNode_without_check (hq : q.kind = .mark .condition)
    (hleft : readNode ts = .ok ⟨some left, t :: rest, hlt⟩) (ht : t.kind.check? = none) :
    readNode (q :: ts) =
      match readNode (t :: rest) with
      | .ok _ => .error (.token (.missingCheck t.kind) t)
      | .error r => .error r := by
  rw [readNode_cons, readConstruct]
  simp only [hq, readConditional_without_check hleft ht]
  cases readNode (t :: rest) <;> rfl

end

end Node

/-- Let a condition have a first operand and then a token that is no check.  If an item begins with
that token, the check is reported missing at the token, in its words.  If none does, the tokens from
there on have an error of their own, and this is the error of the whole. -/
theorem parse_without_check {q t : Token} {ts rest : List Token} {left : Node}
    {hlt : (t :: rest).length < ts.length} (hq : q.kind = .mark .condition)
    (hleft : Node.readNode ts = .ok ⟨some left, t :: rest, hlt⟩) (ht : t.kind.check? = none) :
    ((∃ nodes after, Node.Reads .item (t :: rest) nodes after) →
      ∃ e, parse (q :: ts) = .error e ∧ e.fault = .missingCheck t.kind ∧ e.span = t.span ∧
        e.fault.message = "if statement must contain a check, found " ++ t.kind.describe) ∧
    ((¬ ∃ nodes after, Node.Reads .item (t :: rest) nodes after) →
      ∃ e, parse (t :: rest) = .error e ∧ parse (q :: ts) = .error e) := by
  have hread := Node.readNode_without_check hq hleft ht
  constructor
  · rintro ⟨nodes, after, hreads⟩
    obtain ⟨found, _, hfound, -⟩ := Node.accepts_of_reads hreads
    rw [hfound] at hread
    refine ⟨⟨.missingCheck t.kind, t.span⟩, ?_, rfl, rfl, rfl⟩
    rw [parse, Node.readProgram_eq_error hread (List.cons_ne_nil _ _)]
    rfl
  · intro hnone
    obtain ⟨r, hr⟩ := Node.exists_readNode_eq_error_iff.2 hnone
    rw [hr] at hread
    refine ⟨r.locate (t :: rest), ?_, ?_⟩
    · rw [parse, Node.readProgram_eq_error hr (List.cons_ne_nil _ _)]
    · -- the tokens end where those behind the operand end
      obtain ⟨read, hread', -⟩ := Node.exists_read_of_reads (Node.reads_of_readNode hleft)
      have hend : r.locate (q :: ts) = r.locate (t :: rest) := by
        rw [hread', ← List.cons_append]
        exact r.locate_append (q :: read) (List.cons_ne_nil _ _)
      rw [parse, Node.readProgram_eq_error hread (List.cons_ne_nil _ _), ← hend]

/-- In `? a (f) }` a call stands in the place of the check.  In `? a (f` it is not closed, and only
that is reported. -/
theorem parse_without_check_call :
    let q : Token := ⟨.mark .condition, ⟨0, 1⟩⟩
    let a : Token := ⟨.identifier "a", ⟨2, 3⟩⟩
    let t : Token := ⟨.mark .openParen, ⟨4, 5⟩⟩
    let f : Token := ⟨.identifier "f", ⟨5, 6⟩⟩
    let closed : List Token := [f, ⟨.mark .closeParen, ⟨6, 7⟩⟩, ⟨.mark .closeBrace, ⟨8, 9⟩⟩]
    t.kind.check? = none ∧
      (∃ e, parse (q :: a :: t :: closed) = .error e ∧ e.fault = .missingCheck t.kind ∧
        e.span = t.span ∧
        e.fault.message = "if statement must contain a check, found " ++ t.kind.describe) ∧
      ∃ e, parse [t, f] = .error e ∧ parse [q, a, t, f] = .error e := by
  intro q a t f closed
  have hclosed : Node.Reads .item (t :: closed) [.call "f" []] [⟨.mark .closeBrace, ⟨8, 9⟩⟩] :=
    .call rfl rfl (.done rfl) (.inr (by simp))
  have hopen : ¬ ∃ nodes after, Node.Reads .item [t, f] nodes after := by
    apply Node.exists_readNode_eq_error_iff.1
    exact ⟨.ended (.mark .closeParen), by cbv⟩
  refine ⟨rfl, ?_, ?_⟩
  · exact (parse_without_check rfl (Node.readNode_cons a _) rfl).1 ⟨_, _, hclosed⟩
  · exact (parse_without_check rfl (Node.readNode_cons a _) rfl).2 hopen

/-- In `? a }` a brace stands in the place of the check, and in `? a (f` a call that is not closed.
No missing check is reported. -/
theorem parse_brace_without_check :
    let q : Token := ⟨.mark .condition, ⟨0, 1⟩⟩
    let a : Token := ⟨.identifier "a", ⟨2, 3⟩⟩
    let brace : Token := ⟨.mark .closeBrace, ⟨4, 5⟩⟩
    let paren : Token := ⟨.mark .openParen, ⟨4, 5⟩⟩
    let f : Token := ⟨.identifier "f", ⟨5, 6⟩⟩
    (∃ hlt, Node.readNode [a, brace] = .ok ⟨some (.identifier "a"), [brace], hlt⟩) ∧
      brace.kind.check? = none ∧
      parse [q, a, brace] = .error ⟨.unexpectedToken brace.kind, brace.span⟩ ∧
      parse [q, a, brace] ≠ .error ⟨.missingCheck brace.kind, brace.span⟩ ∧
      (∃ hlt, Node.readNode [a, paren, f] = .ok ⟨some (.identifier "a"), [paren, f], hlt⟩) ∧
      paren.kind.check? = none ∧
      parse [q, a, paren, f] = .error ⟨.unexpectedEnd (.mark .closeParen), ⟨6, 6⟩⟩ ∧
      parse [q, a, paren, f] ≠ .error ⟨.missingCheck paren.kind, paren.span⟩ := by
  intro q a brace paren f
  have hbrace : parse [q, a, brace] = .error ⟨.unexpectedToken brace.kind, brace.span⟩ := by
    cbv
  have hparen : parse [q, a, paren, f] = .error ⟨.unexpectedEnd (.mark .closeParen), ⟨6, 6⟩⟩ := by
    cbv
  refine ⟨⟨by simp, Node.readNode_cons a _⟩, rfl, hbrace, ?_, ⟨by simp, Node.readNode_cons a _⟩,
    rfl, hparen, ?_⟩
  · rw [hbrace]
    intro h
    cases h
  · rw [hparen]
    intro h
    cases h

end LijsCompiler
