import LijsCompiler.Diagnostic
import LijsCompiler.Proofs.Parser.Blame

/-!
# The places of errors

An error shows the end of the last token, one token, or all that stands between the first token of a
construct and a later one.  Which of the three it is, and which token, depends on the fault alone
(`ParseError.IsPlacedIn`).  Tokens that do not end before they start give errors that do not either
(`isPlacedIn_of_parse_eq_error`).
-/

namespace LijsCompiler

/-- The span joins that of a mark `m` and that of a token at or after it. -/
def Span.JoinsFrom (m : Mark) (ts : List Token) (s : Span) : Prop :=
  ∃ (i j : Nat) (first last : Token), i ≤ j ∧ ts[i]? = some first ∧ ts[j]? = some last ∧
    first.kind = .mark m ∧ s = first.span.join last.span

/-- The place of an error in the tokens `ts`.  The faults without a rule of their own are about one
token, whose words are the last in the message. -/
def ParseError.IsPlacedIn (ts : List Token) (e : ParseError) : Prop :=
  match e.fault with
  | .unexpectedEnd _ => e.span = .emptyAt ((ts.getLast?.map (·.span.stop)).getD 0)
  | .assignmentValue => e.span.JoinsFrom .assign ts
  | .tooManyOperands _ _ => e.span.JoinsFrom .openParen ts
  | .missingValue _ => ∃ t ∈ ts, t.kind.isTrivia ∧ e.span = t.span
  | fault =>
    ∃ t ∈ ts, fault.found? = some t.kind ∧ e.span = t.span ∧
      ∃ words, fault.message = words ++ t.kind.describe

theorem Span.join_start_le_stop {a : Span} (b : Span) (h : a.start ≤ a.stop) :
    (a.join b).start ≤ (a.join b).stop := by
  have hstart : (a.join b).start ≤ a.start := Std.min_le_left
  have hstop : a.stop ≤ (a.join b).stop := by
    change a.stop ≤ if a.stop ≤ b.stop then b.stop else a.stop
    split
    · assumption
    · exact UInt32.le_refl _
  exact UInt32.le_trans (UInt32.le_trans hstart h) hstop

theorem ParseFault.exists_message_eq {fault : ParseFault} {kind : TokenKind}
    (h : fault.found? = some kind) : ∃ words, fault.message = words ++ kind.describe := by
  cases fault <;> cases h <;> exact ⟨_, rfl⟩

namespace Node.Refusal

variable {ts : List Token} {r : Refusal}

theorem isPlacedIn_of_blames (h : r.Blames ts) : (r.locate ts).IsPlacedIn ts := by
  cases h with
  | ended expected =>
      show Span.emptyAt _ = Span.emptyAt _
      cases ts.getLast? <;> rfl
  | @token fault t ht hfound =>
      have hmessage := ParseFault.exists_message_eq hfound
      cases fault with
      | assignmentValue | tooManyOperands | unexpectedEnd | missingValue => cases hfound
      | _ => exact ⟨t, ht, hfound, rfl, hmessage⟩
  | @trivia construct t ht htrivia => exact ⟨t, ht, htrivia, rfl⟩
  | @whole fault m first last rest hrest hopening hfirst hlast =>
      obtain ⟨before, rfl⟩ := hrest
      obtain ⟨k, hk⟩ := List.mem_iff_getElem?.1 hlast
      have hjoins : (first.span.join last.span).JoinsFrom m (before ++ first :: rest) := by
        refine ⟨before.length, before.length + k, first, last, by omega, by simp, ?_, hfirst, rfl⟩
        rw [List.getElem?_append_right (by omega), Nat.add_sub_cancel_left, hk]
      cases fault with
      | assignmentValue | tooManyOperands =>
          cases hopening
          exact hjoins
      | _ => cases hopening

theorem start_le_stop_of_blames (hspans : ∀ t ∈ ts, t.span.start ≤ t.span.stop)
    (h : r.Blames ts) : (r.locate ts).span.start ≤ (r.locate ts).span.stop := by
  cases h with
  | ended => exact UInt32.le_refl _
  | token ht | trivia ht => exact hspans _ ht
  | whole hrest => exact Span.join_start_le_stop _ (hspans _ (hrest.mem (List.mem_cons_self ..)))

end Node.Refusal

/-- An error for want of tokens is placed right after the last of them; one about an assigned
assignment or about too many operands covers the tokens from the mark of that construct to a later
one; one about a missing value covers the line break or comment in its place; every other covers the
token that it reports.  No such place ends before it starts, if no token does. -/
theorem isPlacedIn_of_parse_eq_error {ts : List Token} {e : ParseError}
    (hspans : ∀ t ∈ ts, t.span.start ≤ t.span.stop) (h : parse ts = .error e) :
    e.IsPlacedIn ts ∧ e.span.start ≤ e.span.stop := by
  obtain ⟨r, hblames, rfl⟩ := exists_blames_of_parse h
  exact ⟨Node.Refusal.isPlacedIn_of_blames hblames,
    Node.Refusal.start_le_stop_of_blames hspans hblames⟩

/-- In `$a $b (f)` the inner assignment is to blame, from its mark to the last parenthesis. -/
theorem isPlacedIn_of_parse_eq_error_nested_assignment :
    let ts : List Token :=
      [⟨.mark .assign, ⟨0, 1⟩⟩, ⟨.identifier "a", ⟨1, 2⟩⟩, ⟨.mark .assign, ⟨3, 4⟩⟩,
        ⟨.identifier "b", ⟨4, 5⟩⟩, ⟨.mark .openParen, ⟨6, 7⟩⟩, ⟨.identifier "f", ⟨7, 8⟩⟩,
        ⟨.mark .closeParen, ⟨8, 9⟩⟩]
    (∀ t ∈ ts, t.span.start ≤ t.span.stop) ∧ parse ts = .error ⟨.assignmentValue, ⟨3, 9⟩⟩ ∧
      (⟨3, 9⟩ : Span).JoinsFrom .assign ts ∧ (3 : UInt32) ≤ 9 := by
  intro ts
  have hparse : parse ts = .error ⟨.assignmentValue, ⟨3, 9⟩⟩ := by
    simp only [ts, parse, Node.readProgram, Node.readNode_cons, Node.readConstruct,
      Node.readAssignment, Node.readName, Node.readValue, Node.nodeParts, Node.readCall,
      Node.readUntil, if_true, Node.ok_bind]
    rfl
  have hspans : ∀ t ∈ ts, t.span.start ≤ t.span.stop := by decide
  obtain ⟨hplace, hle⟩ := isPlacedIn_of_parse_eq_error hspans hparse
  exact ⟨hspans, hparse, hplace, hle⟩

end LijsCompiler
