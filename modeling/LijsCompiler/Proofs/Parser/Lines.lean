import LijsCompiler.Proofs.Parser.Completeness
import LijsCompiler.Proofs.Parser.Lookahead

/-!
# Tokens after a line break or a comment

Where a program is complete, a line break or a comment may stand, and the tokens behind it are read
as if they stood alone (`parse_append_trivia`).  There is one exception: a comment right after `!`
is read as its missing value.  If that `!` ends the branch of a condition, an `else` behind the
comment still belongs to the condition (`parse_else_after_comment`).
-/

namespace LijsCompiler

namespace Node

/-- After the comment `n`, which stands right after `!`, the tokens `us` begin with the `else` that
the last condition of the program does not have. -/
structure ElseAfterComment (ts : List Token) (program : List Node) (n : Token) (us : List Token) :
    Prop where
  comment : n.kind ≠ .lineBreak
  result : lastKind? ts = some (.mark .result)
  otherwise : nextKind? us = some (.keyword .otherwise)
  ends : endsOpen program = true

/-- After a line break or a comment the reading goes on as with a new list. -/
theorem readProgram_append_trivia {n : Token} (hn : n.kind.isTrivia) {ts us : List Token}
    {program : List Node} (h : ReadsProgram ts program)
    (helse : ¬ ElseAfterComment ts program n us) :
    readProgram (ts ++ n :: us) = (readProgram us).map (program ++ ·) := by
  have htrivia : readProgram (n :: us) = readProgram us := by
    rw [readProgram_of_reads (.trivia hn)]
    cases readProgram us <;> rfl
  induction h with
  | nil => exact readProgram_of_reads (.trivia hn)
  | @item ts after first nodes hfirst hnodes ih =>
      obtain ⟨read, rfl, -, hread⟩ := exists_read_of_reads hfirst
      cases after with
      | cons t after =>
          -- the item sees the same token next, and the rest is a shorter program
          have hitem := reads_append_of_cons hfirst (n :: us)
          have hlast : lastKind? (read ++ t :: after) = lastKind? (t :: after) :=
            lastKind?_append read (by simp)
          have hrest := ih fun h =>
            helse ⟨h.comment, hlast.trans h.result, h.otherwise, endsOpen_append first h.ends⟩
          rw [readProgram_of_reads hitem, hrest]
          cases readProgram us <;> simp [Except.map]
      | nil =>
          obtain rfl : nodes = [] := by
            cases hnodes with
            | nil => rfl
            | item hitem =>
                obtain ⟨_, _, hcons⟩ := exists_cons_of_accepts (accepts_of_reads hitem)
                cases hcons
          simp only [List.append_nil] at helse ⊢
          by_cases htaken : n.kind ≠ .lineBreak ∧ lastKind? read = some (.mark .result)
          · have hclosed (h : nextKind? us = some (.keyword .otherwise)) : endsOpen first = false :=
              Bool.eq_false_iff.2 fun hends => helse ⟨htaken.1, htaken.2, h, hends⟩
            exact readProgram_of_reads (hread _ us (.comment hn htaken.1 htaken.2 hclosed))
          · have hbreak (h : lastKind? read = some (.mark .result)) : n.kind = .lineBreak := by
              simpa [h] using htaken
            rw [readProgram_of_reads (hread _ _ (.trivia hn hbreak)), htrivia]

/-- The end of the tokens is the end of the last of them. -/
theorem Refusal.locate_append (r : Refusal) (ts : List Token) {us : List Token} (h : us ≠ []) :
    r.locate (ts ++ us) = r.locate us := by
  rw [locate, locate, List.getLast?_append_of_ne_nil ts h]

end Node

section

variable {ts us : List Token} {program : List Node} {n : Token}

/-- What program the tokens in front make is all that they contribute, also to an error. -/
theorem parse_append_eq_map (hn : n.kind.isTrivia) (h : parse ts = .ok program)
    (helse : ¬ Node.ElseAfterComment ts program n us) :
    parse (ts ++ n :: us) = (parse us).map (program ++ ·) := by
  unfold parse
  rw [Node.readProgram_append_trivia hn (parse_eq_ok_iff.1 h) helse]
  cases hprogram : Node.readProgram us with
  | ok nodes => rfl
  | error r =>
      have hlocate := r.locate_append (ts ++ [n]) (Node.ne_nil_of_readProgram_error hprogram)
      rw [List.append_assoc] at hlocate
      exact congrArg Except.error hlocate

theorem parse_append_lineBreak (hbreak : n.kind = .lineBreak) (h : parse ts = .ok program)
    (us : List Token) : parse (ts ++ n :: us) = (parse us).map (program ++ ·) :=
  parse_append_eq_map (hbreak ▸ rfl) h fun h => h.comment hbreak

/-- Between two programs a line break or a comment may stand, and an error in the second is not
changed by the first.  The one exception is an `else` after a comment after `!`, if the first
program ends with a condition that has none. -/
theorem parse_append_trivia (hn : n.kind.isTrivia) (h : parse ts = .ok program)
    (helse : ¬ Node.ElseAfterComment ts program n us) :
    (∀ others, parse us = .ok others → parse (ts ++ [n] ++ us) = .ok (program ++ others)) ∧
      ∀ e, parse us = .error e → parse (ts ++ [n] ++ us) = .error e := by
  have hjoined : parse (ts ++ [n] ++ us) = (parse us).map (program ++ ·) := by
    rw [← List.append_cons]
    exact parse_append_eq_map hn h helse
  constructor
  · intro others hothers
    rw [hjoined, hothers, Except.map]
  · intro e he
    rw [hjoined, he, Except.map]

end

/-- In `? a exists !/*c*/ x` the comment ends the condition although it follows `!`. -/
theorem parse_append_trivia_after_result :
    let ts : List Token :=
      [⟨.mark .condition, ⟨0, 1⟩⟩, ⟨.identifier "a", ⟨2, 3⟩⟩, ⟨.keyword (.check .present), ⟨4, 11⟩⟩,
        ⟨.mark .result, ⟨11, 12⟩⟩]
    let n : Token := ⟨.blockComment ["c"], ⟨12, 17⟩⟩
    let us : List Token := [⟨.identifier "x", ⟨18, 19⟩⟩]
    let program : List Node :=
      [.conditional .present (.identifier "a") none [.result none] none]
    parse ts = .ok program ∧ Node.lastKind? ts = some (.mark .result) ∧
      Node.endsOpen program = true ∧ parse us = .ok [.identifier "x"] ∧
      parse (ts ++ [n] ++ us) = .ok (program ++ [.identifier "x"]) := by
  intro ts n us program
  have hts : parse ts = .ok program := by cbv
  have hus : parse us = .ok [.identifier "x"] := by cbv
  have hjoined : parse (ts ++ [n] ++ us) = .ok (program ++ [.identifier "x"]) :=
    (parse_append_trivia rfl hts fun h => by cases h.otherwise).1 _ hus
  exact ⟨hts, rfl, by cbv, hus, hjoined⟩

/-- In `? a exists !/*c*/else x` the `else` belongs to the condition, although `else x` alone is
refused. -/
theorem parse_else_after_comment :
    let ts : List Token :=
      [⟨.mark .condition, ⟨0, 1⟩⟩, ⟨.identifier "a", ⟨2, 3⟩⟩, ⟨.keyword (.check .present), ⟨4, 11⟩⟩,
        ⟨.mark .result, ⟨11, 12⟩⟩]
    let n : Token := ⟨.blockComment ["c"], ⟨12, 17⟩⟩
    let us : List Token := [⟨.keyword .otherwise, ⟨17, 22⟩⟩, ⟨.identifier "x", ⟨22, 23⟩⟩]
    let e : ParseError := ⟨.unexpectedToken (.keyword .otherwise), ⟨17, 22⟩⟩
    n.kind.isTrivia ∧
      parse ts = .ok [.conditional .present (.identifier "a") none [.result none] none] ∧
      parse us = .error e ∧
      parse (ts ++ [n] ++ us) = .ok
        [.conditional .present (.identifier "a") none [.result none] (some [.identifier "x"])] ∧
      parse (ts ++ [n] ++ us) ≠ .error e := by
  intro ts n us e
  have hts : parse ts = .ok [.conditional .present (.identifier "a") none [.result none] none] := by
    cbv
  have hus : parse us = .error e := by cbv
  have hjoined : parse (ts ++ [n] ++ us) = .ok
      [.conditional .present (.identifier "a") none [.result none] (some [.identifier "x"])] := by
    cbv
  refine ⟨rfl, hts, hus, hjoined, ?_⟩
  rw [hjoined]
  intro h
  cases h

end LijsCompiler
