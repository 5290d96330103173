import LijsCompiler.Proofs.Parser.Completeness
import LijsCompiler.Proofs.Parser.Lookahead

/-!
# Progress and lookahead

Seen as a cursor that moves along one list of tokens, the reader of a node moves forward and never
beyond the end, and its answer depends on the tokens that it passes, on the kind of the token that it
stops at, and on nothing else (`readAt_of_take_eq`).  A loop that reads node after node is therefore
over after at most one turn more than there are tokens left (`runLoop_eq`).
-/

namespace LijsCompiler.Node

/-- Reads one node, or skips one line break or comment, with the cursor at `p`, and gives the new
cursor. -/
def readAt (tokens : List Token) (p : Nat) : Except Refusal (Option Node × Nat) :=
  (readNode (tokens.drop p)).map fun r => (r.value, tokens.length - r.rest.length)

section

variable {tokens : List Token} {p q : Nat} {found : Option Node}

/-- The cursor moves forward, and what is left are the tokens from the new cursor on. -/
theorem readAt_eq_ok_iff :
    readAt tokens p = .ok (found, q) ↔
      p < q ∧ q ≤ tokens.length ∧
        ∃ hlt, readNode (tokens.drop p) = .ok ⟨found, tokens.drop q, hlt⟩ := by
  unfold readAt
  constructor
  · intro h
    cases hread : readNode (tokens.drop p) with
    | error r =>
        rw [hread] at h
        cases h
    | ok r =>
        obtain ⟨value, rest, hlt⟩ := r
        rw [hread] at h
        obtain ⟨rfl, rfl⟩ := Prod.mk.inj (Except.ok.inj h)
        obtain ⟨read, hsplit, hne, -⟩ := exists_read_of_reads (reads_of_readNode hread)
        dsimp only at hsplit ⊢
        have hpos := List.length_pos_iff.2 hne
        have hlength := congrArg List.length hsplit
        rw [List.length_drop, List.length_append] at hlength
        have hcursor : tokens.length - rest.length = p + read.length := by omega
        have hrest : rest = tokens.drop (tokens.length - rest.length) := by
          rw [hcursor, ← List.drop_drop, hsplit, List.drop_left]
        refine ⟨by omega, by omega, hrest ▸ hlt, ?_⟩
        congr
  · rintro ⟨-, hq, hlt, hread⟩
    have hcursor : tokens.length - (tokens.drop q).length = q := by
      rw [List.length_drop]
      omega
    rw [hread]
    change Except.ok (found, tokens.length - (tokens.drop q).length) = _
    rw [hcursor]

theorem readNode_of_readAt_eq_error {r : Refusal} (h : readAt tokens p = .error r) :
    readNode (tokens.drop p) = .error r := by
  unfold readAt at h
  cases hread : readNode (tokens.drop p) with
  | error s =>
      rw [hread] at h
      exact congrArg _ (Except.error.inj h)
  | ok s =>
      rw [hread] at h
      cases h

/-- Tokens that agree up to the cursor that a node is read to, and are alike from there on, give the
same node and the same cursor. -/
theorem readAt_of_take_eq (h : readAt tokens p = .ok (found, q)) {others : List Token}
    (htake : others.take q = tokens.take q) (halike : Alike (tokens.drop q) (others.drop q)) :
    readAt others p = .ok (found, q) := by
  obtain ⟨hpq, hq, hlt, hread⟩ := readAt_eq_ok_iff.1 h
  obtain ⟨read, hsplit, -, hstands⟩ := exists_read_of_reads (reads_of_readNode hread)
  have hdrop (ts : List Token) : ts.drop p = (ts.take q).drop p ++ ts.drop q := by
    have hq : ts.drop q = (ts.drop p).drop (q - p) := by
      rw [List.drop_drop, Nat.add_sub_cancel' (Nat.le_of_lt hpq)]
    rw [List.drop_take, hq, List.take_append_drop]
  obtain rfl : read = (tokens.take q).drop p :=
    List.append_cancel_right (hsplit.symm.trans (hdrop tokens))
  have hreads := hstands _ _ (.alike halike)
  rw [← htake, ← hdrop] at hreads
  obtain ⟨found', hlt', hread', hfound⟩ := accepts_of_reads hreads
  obtain rfl : found' = found := by
    rw [← Option.head?_toList (o := found'), hfound, Option.head?_toList]
  have hlength := congrArg List.length htake
  rw [List.length_take, List.length_take] at hlength
  exact readAt_eq_ok_iff.2 ⟨hpq, by omega, hlt', hread'⟩

end

/-! ## Loops over nodes -/

inductive Turn where
  /-- The loop is over, with the cursor behind it, or with a refusal. -/
  | over (outcome : Except Refusal Nat)
  /-- An item was read and the loop goes on. -/
  | next (found : Option Node) (cursor : Nat)

/-- One turn of a loop over nodes with the cursor at `p`.  A loop with a closing mark takes the mark
and must find it; the loop of a whole program ends with the tokens. -/
def turn (closer : Option Mark) (tokens : List Token) (p : Nat) : Turn :=
  match tokens[p]?, closer with
  | none, none => .over (.ok p)
  | none, some mark => .over (.error (.ended (.mark mark)))
  | some t, closer =>
    if closer.map TokenKind.mark = some t.kind then .over (.ok (p + 1))
    else
      match readAt tokens p with
      | .ok (found, q) => .next found q
      | .error r => .over (.error r)

/-- Takes turns until the loop is over, with the nodes read so far.  There is no answer if it is not
over after `limit` turns. -/
def runLoop (closer : Option Mark) (tokens : List Token) :
    Nat → Nat → List Node → Option (Except Refusal (List Node × Nat))
  | 0, _, _ => none
  | limit + 1, p, nodes =>
    match turn closer tokens p with
    | .over outcome => some (outcome.map (nodes, ·))
    | .next found q => runLoop closer tokens limit q (nodes ++ found.toList)

def readRun {n : Nat} (closer : Option Mark) (ts : List Token) (hn : ts.length ≤ n) :
    Except Refusal (List Node × List Token) :=
  match closer with
  | none => (readProgram ts).map (·, [])
  | some mark => (readUntil (nodeParts n) mark ts hn).map fun r => (r.value, r.rest)

section

variable {n : Nat} {closer : Option Mark} {t : Token} {rest : List Token}

theorem readRun_nil (closer : Option Mark) (hn : [].length ≤ n) :
    readRun closer [] hn =
      match closer with
      | none => .ok ([], [])
      | some mark => .error (.ended (.mark mark)) := by
  cases closer with
  | none =>
      rw [readRun, readProgram]
      rfl
  | some mark =>
      rw [readRun, readUntil]
      rfl

theorem readRun_of_closer {mark : Mark} (hn : (t :: rest).length ≤ n) (ht : t.kind = .mark mark) :
    readRun (some mark) (t :: rest) hn = .ok ([], rest) := by
  rw [readRun, readUntil, if_pos ht]
  rfl

theorem readRun_of_error {r : Refusal} (hn : (t :: rest).length ≤ n)
    (hcloser : closer.map TokenKind.mark ≠ some t.kind) (h : readNode (t :: rest) = .error r) :
    readRun closer (t :: rest) hn = .error r := by
  cases closer with
  | none =>
      rw [readRun, readProgram, h]
      rfl
  | some mark =>
      have hmark : t.kind ≠ .mark mark := fun hmark => hcloser (congrArg some hmark.symm)
      have hparts : nodeParts n (t :: rest) hn = .error r := h
      rw [readRun, readUntil, if_neg hmark, hparts]
      rfl

theorem readRun_of_ok {r : Reading (Option Node) (t :: rest).length} (hn : (t :: rest).length ≤ n)
    (hcloser : closer.map TokenKind.mark ≠ some t.kind) (h : readNode (t :: rest) = .ok r)
    (hrest : r.rest.length ≤ n) :
    readRun closer (t :: rest) hn =
      (readRun closer r.rest hrest).map fun (nodes, left) => (r.value.toList ++ nodes, left) := by
  cases closer with
  | none =>
      simp only [readRun, readProgram, h, ok_bind]
      cases readProgram r.rest <;> rfl
  | some mark =>
      have hmark : t.kind ≠ .mark mark := fun hmark => hcloser (congrArg some hmark.symm)
      have hparts : nodeParts n (t :: rest) hn = .ok r := h
      simp only [readRun]
      rw [readUntil, if_neg hmark]
      simp only [hparts, ok_bind]
      cases readUntil (nodeParts n) mark r.rest hrest <;> rfl

end

theorem turn_of_lt (closer : Option Mark) {tokens : List Token} {p : Nat}
    (hlt : p < tokens.length) :
    turn closer tokens p =
      if closer.map TokenKind.mark = some tokens[p].kind then .over (.ok (p + 1))
      else
        match readAt tokens p with
        | .ok (found, q) => .next found q
        | .error r => .over (.error r) := by
  unfold turn
  rw [List.getElem?_eq_getElem hlt]

/-- A loop is over after at most one turn more than there are tokens left, and its answer is that of
the reader of such a list. -/
theorem runLoop_eq {closer : Option Mark} {tokens : List Token} {p limit n : Nat}
    (hp : p ≤ tokens.length) (hlimit : tokens.length - p < limit)
    (hn : (tokens.drop p).length ≤ n) (nodes : List Node) :
    runLoop closer tokens limit p nodes =
      some ((readRun closer (tokens.drop p) hn).map fun (found, rest) =>
        (nodes ++ found, tokens.length - rest.length)) := by
  induction limit generalizing p nodes with
  | zero => omega
  | succ limit ih =>
      rw [runLoop]
      rcases Nat.eq_or_lt_of_le hp with rfl | hlt
      · revert hn
        rw [List.drop_length]
        intro hn
        rw [readRun_nil]
        cases closer <;> simp [turn, Except.map]
      · have hdrop : tokens.drop p = tokens[p] :: tokens.drop (p + 1) :=
          List.drop_eq_getElem_cons hlt
        rw [turn_of_lt closer hlt]
        by_cases hcloser : closer.map TokenKind.mark = some tokens[p].kind
        · obtain ⟨mark, rfl, hmark⟩ := Option.map_eq_some_iff.1 hcloser
          have hcursor : tokens.length - (tokens.drop (p + 1)).length = p + 1 := by
            rw [List.length_drop]
            omega
          have hrun : readRun (some mark) (tokens.drop p) hn = .ok ([], tokens.drop (p + 1)) := by
            revert hn
            rw [hdrop]
            exact fun hn => readRun_of_closer hn hmark.symm
          rw [if_pos hcloser, hrun]
          simp only [Except.map, hcursor, List.append_nil]
        · rw [if_neg hcloser]
          cases hread : readAt tokens p with
          | error r =>
              have hnode := readNode_of_readAt_eq_error hread
              have hrun : readRun closer (tokens.drop p) hn = .error r := by
                revert hn hnode
                rw [hdrop]
                exact fun hn hnode => readRun_of_error hn hcloser hnode
              rw [hrun]
              rfl
          | ok answer =>
              obtain ⟨found, q⟩ := answer
              obtain ⟨hpq, hq, hshorter, hnode⟩ := readAt_eq_ok_iff.1 hread
              have hrest : (tokens.drop q).length ≤ n := Nat.le_trans (Nat.le_of_lt hshorter) hn
              have hrun : readRun closer (tokens.drop p) hn =
                  (readRun closer (tokens.drop q) hrest).map fun (others, left) =>
                    (found.toList ++ others, left) := by
                revert hn hshorter hnode
                rw [hdrop]
                exact fun hn hshorter hnode => readRun_of_ok hn hcloser hnode hrest
              -- fewer tokens are left from the new cursor on, so the turns that are left suffice
              change runLoop closer tokens limit q (nodes ++ found.toList) = _
              rw [hrun, ih hq (by omega) hrest]
              cases readRun closer (tokens.drop q) hrest <;> simp [Except.map]

/-- Where a node is read, or a line break or comment skipped, the cursor moves forward and not beyond
the end of the tokens.  Any other tokens that agree with these before the new cursor, and have there
a token of the same kind or their end, give the same node and the same cursor.  So every loop over
nodes, with or without a closing mark, is over after at most one turn more than there are tokens
left, and it gives what the reader of such a list gives. -/
theorem readAt_looks_one_token_ahead :
    (∀ (tokens : List Token) (p : Nat) (found : Option Node) (q : Nat),
      readAt tokens p = .ok (found, q) →
        p < q ∧ q ≤ tokens.length ∧
        (∃ hlt, readNode (tokens.drop p) = .ok ⟨found, tokens.drop q, hlt⟩) ∧
        ∀ others : List Token, others.take q = tokens.take q →
          (others[q]? = none ∨
            others[q]?.map (·.kind.withoutText) = tokens[q]?.map (·.kind.withoutText)) →
          readAt others p = .ok (found, q)) ∧
    ∀ (closer : Option Mark) (tokens : List Token) (p limit n : Nat),
      p ≤ tokens.length → tokens.length - p < limit → ∀ hn : (tokens.drop p).length ≤ n,
        runLoop closer tokens limit p [] =
          some ((readRun closer (tokens.drop p) hn).map fun (nodes, rest) =>
            (nodes, tokens.length - rest.length)) := by
  constructor
  · intro tokens p found q h
    obtain ⟨hpq, hq, hread⟩ := readAt_eq_ok_iff.1 h
    refine ⟨hpq, hq, hread, fun others htake hnext => readAt_of_take_eq h htake ?_⟩
    intro kind hkind
    rw [nextKind?, List.head?_drop] at hkind ⊢
    obtain ⟨t, ht, rfl⟩ := Option.map_eq_some_iff.1 hkind
    rcases hnext with hnone | hsame
    · rw [hnone] at ht
      cases ht
    · rw [ht] at hsame
      obtain ⟨t', ht', hkind'⟩ := Option.map_eq_some_iff.1 hsame.symm
      exact ⟨t'.kind, by rw [ht']; rfl, hkind'.symm⟩
  · intro closer tokens p limit n hp hlimit hn
    exact runLoop_eq hp hlimit hn []

/-- After the `!` in `? a exists ! b c` the name `c` may be another one, with or without more tokens
behind it, or missing.  The arguments of a call that is not closed end with the tokens. -/
theorem readAt_looks_one_token_ahead_other_name :
    let front : List Token := [.mark .condition, .identifier "a", .keyword (.check .present),
      .mark .result, .identifier "b"].map (Token.mk · default)
    let c : Token := ⟨.identifier "c", default⟩
    let node : Node := .conditional .present (.identifier "a") none
      [.result (some (.identifier "b"))] none
    readAt (front ++ [c]) 0 = .ok (some node, 5) ∧
      readAt front 0 = .ok (some node, 5) ∧
      readAt (front ++ [⟨.identifier "d", ⟨1, 2⟩⟩, ⟨.mark .closeParen, default⟩]) 0 =
        .ok (some node, 5) ∧
      runLoop (some .closeParen) (front ++ [c]) 7 0 [] =
        some (.error (.ended (.mark .closeParen))) := by
  intro front c node
  have hread : readAt (front ++ [c]) 0 = .ok (some node, 5) := by cbv
  obtain ⟨hlocal, hloops⟩ := readAt_looks_one_token_ahead
  obtain ⟨-, -, -, hothers⟩ := hlocal _ _ _ _ hread
  refine ⟨hread, hothers _ rfl (.inl rfl), hothers _ rfl (.inr rfl), ?_⟩
  rw [hloops (some .closeParen) (front ++ [c]) 0 7 6 (by decide) (by decide) (by decide)]
  cbv

end LijsCompiler.Node
