import Mathlib.Data.List.Forall2
import LijsCompiler.Proofs.Lexer.Lines
import LijsCompiler.Proofs.Parser.Completeness

/-!
# Tokens that stand elsewhere

The readers look at the kinds of tokens and never at their spans, which only come back in a refusal.
If all tokens are moved to the right, what is read stays as it is and a refusal is moved
(`parse_map_shift`).

A span to blame may join two spans, and a join moves with its parts only if no offset overflows.
So the readers are compared on tokens that may be moved, and they leave such tokens.
-/

namespace LijsCompiler

def ParseError.shift (offset : Nat) (e : ParseError) : ParseError :=
  ⟨e.fault, e.span.shift offset⟩

/-- The first token may be moved `offset` bytes to the right, and the second is where it is then. -/
def Token.MovesTo (offset : Nat) (t u : Token) : Prop :=
  t.span.MovesBy offset ∧ u = t.shift offset

namespace Node

open List (Forall₂)

def Refusal.shift (offset : Nat) (r : Refusal) : Refusal :=
  ⟨r.fault, r.place.map (Span.shift offset)⟩

variable {offset : Nat}

inductive Moved (offset : Nat) {α : Type} {m n : Nat} : Read α m → Read α n → Prop where
  | ok {value : α} {rest rest' : List Token} {h : rest.length < m} {h' : rest'.length < n}
      (hrest : Forall₂ (Token.MovesTo offset) rest rest') :
      Moved offset (.ok ⟨value, rest, h⟩) (.ok ⟨value, rest', h'⟩)
  | error (r : Refusal) : Moved offset (.error r) (.error (r.shift offset))

namespace Moved

variable {α β : Type} {m n k l : Nat}

theorem bind {x : Read α m} {y : Read α n} {f : Reading α m → Read β k}
    {g : Reading α n → Read β l} (hx : Moved offset x y)
    (hf : ∀ value rest rest' h h', Forall₂ (Token.MovesTo offset) rest rest' →
      Moved offset (f ⟨value, rest, h⟩) (g ⟨value, rest', h'⟩)) :
    Moved offset (x >>= f) (y >>= g) := by
  cases hx with
  | ok hrest => exact hf _ _ _ _ _ hrest
  | error r => exact .error r

theorem node {x : Read Node m} {y : Read Node n} (hx : Moved offset x y) (hm : m ≤ k) (hn : n ≤ l) :
    Moved offset (Reading.node hm <$> x) (Reading.node hn <$> y) := by
  cases hx with
  | ok hrest => exact .ok hrest
  | error r => exact .error r

end Moved

/-- The second reader of parts treats moved tokens as the first treats the tokens. -/
def MovedParts (offset : Nat) {m n : Nat} (p : Parts m) (q : Parts n) : Prop :=
  ∀ ts us h h', Forall₂ (Token.MovesTo offset) ts us → Moved offset (p ts h) (q us h')

@[simp] theorem kind_shift (offset : Nat) (t : Token) : (t.shift offset).kind = t.kind := rfl

theorem forall₂_movesTo_iff {ts us : List Token} :
    Forall₂ (Token.MovesTo offset) ts us ↔
      (∀ t ∈ ts, t.span.MovesBy offset) ∧ us = ts.map (Token.shift offset) := by
  constructor
  · intro h
    induction h with
    | nil => simp
    | cons ht _ ih =>
        rw [List.forall_mem_cons, List.map_cons]
        exact ⟨⟨ht.1, ih.1⟩, by rw [ht.2, ih.2]⟩
  · rintro ⟨hts, rfl⟩
    rw [List.forall₂_map_right_iff, List.forall₂_same]
    exact fun t ht => ⟨hts t ht, rfl⟩

/-! ## The tokens to blame -/

theorem coveredSpan_of_movesTo {ts us : List Token} (h : Forall₂ (Token.MovesTo offset) ts us) :
    coveredSpan us = (coveredSpan ts).map (Span.shift offset) := by
  obtain ⟨hts, rfl⟩ := forall₂_movesTo_iff.1 h
  unfold coveredSpan
  rw [List.head?_map, List.getLast?_map]
  cases hfirst : ts.head? with
  | none => rfl
  | some first =>
      cases hlast : ts.getLast? with
      | none => rfl
      | some last =>
          have hfirst := hts first (List.mem_of_mem_head? hfirst)
          have hlast := hts last (List.mem_of_mem_getLast? hlast)
          show some _ = some _
          rw [Span.shift_join hfirst hlast]
          rfl

theorem readTokens_of_movesTo {ts us rest rest' : List Token}
    (hts : Forall₂ (Token.MovesTo offset) ts us)
    (hrest : Forall₂ (Token.MovesTo offset) rest rest') :
    Forall₂ (Token.MovesTo offset) (readTokens ts rest) (readTokens us rest') := by
  unfold readTokens
  rw [hts.length_eq, hrest.length_eq]
  exact List.forall₂_take _ hts

/-! ## Names, keys and parameters -/

theorem moved_readName (construct : Construct) {ts us : List Token}
    (h : Forall₂ (Token.MovesTo offset) ts us) :
    Moved offset (readName construct ts) (readName construct us) := by
  cases h with
  | nil => exact .error _
  | @cons t u rest rest' ht hrest =>
      obtain ⟨-, rfl⟩ := ht
      unfold readName
      dsimp only [kind_shift]
      split
      · exact .ok hrest
      · exact .error (.token _ t)

theorem moved_readKey {ts us : List Token} (h : Forall₂ (Token.MovesTo offset) ts us) :
    Moved offset (readKey ts) (readKey us) := by
  cases h with
  | nil => exact .error _
  | @cons t u rest rest' ht hrest =>
      obtain ⟨-, rfl⟩ := ht
      unfold readKey
      dsimp only [kind_shift]
      split
      · exact .ok hrest
      · exact .ok hrest
      · exact .error (.token _ t)

theorem moved_readParams {ts us : List Token} (h : Forall₂ (Token.MovesTo offset) ts us) :
    Moved offset (readParams ts) (readParams us) := by
  induction h with
  | nil => exact .error _
  | @cons t u rest rest' ht hrest ih =>
      obtain ⟨-, rfl⟩ := ht
      unfold readParams
      dsimp only [kind_shift]
      split
      · exact .ok hrest
      · exact ih.bind fun names after after' _ _ hafter => .ok hafter
      · split
        · exact ih.bind fun names after after' _ _ hafter => .ok hafter
        · exact .error (.token _ t)

/-! ## Values, lists and bodies -/

section

variable {m n : Nat} {p : Parts m} {q : Parts n} (hparts : MovedParts offset p q)
variable {ts us : List Token}

include hparts

theorem moved_readValue (construct : Construct) (h : Forall₂ (Token.MovesTo offset) ts us)
    (hm : ts.length ≤ m) (hn : us.length ≤ n) :
    Moved offset (readValue p construct ts hm) (readValue q construct us hn) := by
  apply (hparts ts us hm hn h).bind
  intro found rest rest' _ _ hrest
  cases found with
  | some node => exact .ok hrest
  | none =>
      have hplace : us.head?.map (·.span) = (ts.head?.map (·.span)).map (Span.shift offset) := by
        cases h with
        | nil => rfl
        | cons ht _ => rw [ht.2]; rfl
      dsimp only
      rw [hplace]
      exact .error ⟨_, _⟩

theorem moved_readUntil (closer : Mark) (h : Forall₂ (Token.MovesTo offset) ts us)
    (hm : ts.length ≤ m) (hn : us.length ≤ n) :
    Moved offset (readUntil p closer ts hm) (readUntil q closer us hn) := by
  obtain ⟨bound, hbound⟩ : ∃ bound, ts.length < bound := ⟨_, Nat.lt_succ_self _⟩
  induction bound generalizing ts us with
  | zero => cases hbound
  | succ bound ih =>
      cases h with
      | nil =>
          rw [readUntil, readUntil]
          exact .error _
      | @cons t u rest rest' ht hrest =>
          have hall := Forall₂.cons ht hrest
          obtain ⟨-, rfl⟩ := ht
          rw [readUntil, readUntil, kind_shift]
          split
          · exact .ok hrest
          · apply (hparts _ _ hm hn hall).bind
            intro first after after' hlt _ hafter
            apply (ih hafter (by omega) (by omega) (by omega)).bind
            intro nodes final final' _ _ hfinal
            exact .ok hfinal

theorem moved_readBody (h : Forall₂ (Token.MovesTo offset) ts us) (hm : ts.length ≤ m)
    (hn : us.length ≤ n) : Moved offset (readBody p ts hm) (readBody q us hn) := by
  cases h with
  | nil => exact .error _
  | @cons t u rest rest' ht hrest =>
      have hall := Forall₂.cons ht hrest
      obtain ⟨-, rfl⟩ := ht
      rw [readBody, readBody, kind_shift]
      split
      · apply (moved_readUntil hparts .closeBrace hrest _ _).bind
        intro nodes after after' _ _ hafter
        exact .ok hafter
      · apply (hparts _ _ hm hn hall).bind
        intro node after after' _ _ hafter
        exact .ok hafter

/-! ## Constructs -/

theorem moved_readResult (h : Forall₂ (Token.MovesTo offset) ts us) (hm : ts.length ≤ m)
    (hn : us.length ≤ n) : Moved offset (readResult p ts hm) (readResult q us hn) := by
  cases h with
  | nil => exact .ok .nil
  | @cons t u rest rest' ht hrest =>
      have hall := Forall₂.cons ht hrest
      obtain ⟨-, rfl⟩ := ht
      rw [readResult, readResult, kind_shift]
      split
      · exact .ok hall
      · apply (hparts _ _ hm hn hall).bind
        intro value after after' _ _ hafter
        exact .ok hafter

theorem moved_readAssignment (h : Forall₂ (Token.MovesTo offset) ts us) (hm : ts.length ≤ m)
    (hn : us.length ≤ n) : Moved offset (readAssignment p ts hm) (readAssignment q us hn) := by
  apply (moved_readName .binding h).bind
  intro name ts₁ us₁ _ _ h₁
  apply (moved_readValue hparts .assignment h₁ _ _).bind
  intro value ts₂ us₂ _ _ h₂
  cases value with
  | assignment _ _ =>
      dsimp only
      rw [coveredSpan_of_movesTo (readTokens_of_movesTo h₁ h₂)]
      exact .error ⟨_, _⟩
  | _ => exact .ok h₂

theorem moved_readSet (h : Forall₂ (Token.MovesTo offset) ts us) (hm : ts.length ≤ m)
    (hn : us.length ≤ n) : Moved offset (readSet p ts hm) (readSet q us hn) := by
  apply (moved_readName .object h).bind
  intro name ts₁ us₁ _ _ h₁
  apply (moved_readKey h₁).bind
  intro key ts₂ us₂ _ _ h₂
  apply (moved_readValue hparts .objectSet h₂ _ _).bind
  intro value ts₃ us₃ _ _ h₃
  exact .ok h₃

theorem moved_readCall {opening : Token} (hopening : opening.span.MovesBy offset)
    (h : Forall₂ (Token.MovesTo offset) ts us) (hm : ts.length ≤ m) (hn : us.length ≤ n) :
    Moved offset (readCall p opening ts hm) (readCall q (opening.shift offset) us hn) := by
  apply (moved_readName .functionCall h).bind
  intro name ts₁ us₁ _ _ h₁
  apply (moved_readUntil hparts .closeParen h₁ _ _).bind
  intro args ts₂ us₂ _ _ h₂
  dsimp only
  split
  · exact .ok h₂
  · split
    · exact .ok h₂
    · have hread := Forall₂.cons ⟨hopening, rfl⟩ (readTokens_of_movesTo h h₂)
      rw [coveredSpan_of_movesTo hread]
      exact .error ⟨_, _⟩
    · exact .ok h₂

theorem moved_readFunction (h : Forall₂ (Token.MovesTo offset) ts us) (hm : ts.length ≤ m)
    (hn : us.length ≤ n) : Moved offset (readFunction p ts hm) (readFunction q us hn) := by
  apply (moved_readName .function h).bind
  intro name ts₁ us₁ _ _ h₁
  cases h₁ with
  | nil => exact .error _
  | @cons t u rest rest' ht hrest =>
      obtain ⟨-, rfl⟩ := ht
      dsimp only
      by_cases hbracket : t.kind = .mark .openBracket
      · have hmoved : (t.shift offset).kind = .mark .openBracket := hbracket
        rw [if_pos hbracket, if_pos hmoved]
        apply (moved_readParams hrest).bind
        intro params ts₂ us₂ _ _ h₂
        apply (moved_readBody hparts h₂ _ _).bind
        intro body ts₃ us₃ _ _ h₃
        exact .ok h₃
      · have hmoved : (t.shift offset).kind ≠ .mark .openBracket := hbracket
        rw [if_neg hbracket, if_neg hmoved]
        exact .error (.token _ t)

theorem moved_readIterator (h : Forall₂ (Token.MovesTo offset) ts us) (hm : ts.length ≤ m)
    (hn : us.length ≤ n) : Moved offset (readIterator p ts hm) (readIterator q us hn) := by
  apply (moved_readValue hparts .iterator h hm hn).bind
  intro source ts₁ us₁ _ _ h₁
  apply (moved_readBody hparts h₁ _ _).bind
  intro body ts₂ us₂ _ _ h₂
  exact .ok h₂

theorem moved_readElse (h : Forall₂ (Token.MovesTo offset) ts us) (hm : ts.length ≤ m)
    (hn : us.length ≤ n) : Moved offset (readElse p ts hm) (readElse q us hn) := by
  cases h with
  | nil => exact .ok .nil
  | @cons t u rest rest' ht hrest =>
      have hall := Forall₂.cons ht hrest
      obtain ⟨-, rfl⟩ := ht
      rw [readElse, readElse, kind_shift]
      split
      · apply (moved_readBody hparts hrest _ _).bind
        intro body after after' _ _ hafter
        exact .ok hafter
      · exact .ok hall

theorem moved_readOperand (check : Check) (h : Forall₂ (Token.MovesTo offset) ts us)
    (hm : ts.length ≤ m) (hn : us.length ≤ n) :
    Moved offset (readOperand p check ts hm) (readOperand q check us hn) := by
  unfold readOperand
  split
  · apply (moved_readValue hparts .condition h hm hn).bind
    intro node rest rest' _ _ hrest
    exact .ok hrest
  · exact .ok h

theorem moved_readConditional (h : Forall₂ (Token.MovesTo offset) ts us) (hm : ts.length ≤ m)
    (hn : us.length ≤ n) : Moved offset (readConditional p ts hm) (readConditional q us hn) := by
  apply (moved_readValue hparts .condition h hm hn).bind
  intro left ts₁ us₁ _ _ h₁
  cases h₁ with
  | nil => exact .error _
  | @cons t u rest rest' ht hrest =>
      have hall := Forall₂.cons ht hrest
      obtain ⟨-, rfl⟩ := ht
      dsimp only [kind_shift]
      split
      · apply (hparts _ _ _ _ hall).bind
        intro _ _ _ _ _ _
        exact .error (.token _ t)
      · apply (moved_readOperand hparts _ hrest _ _).bind
        intro right ts₂ us₂ _ _ h₂
        apply (moved_readBody hparts h₂ _ _).bind
        intro pass ts₃ us₃ _ _ h₃
        apply (moved_readElse hparts h₃ _ _).bind
        intro fail ts₄ us₄ _ _ h₄
        exact .ok h₄

end

theorem moved_readGet {ts us : List Token} (h : Forall₂ (Token.MovesTo offset) ts us) :
    Moved offset (readGet ts) (readGet us) := by
  apply (moved_readName .object h).bind
  intro name ts₁ us₁ _ _ h₁
  apply (moved_readKey h₁).bind
  intro key ts₂ us₂ _ _ h₂
  exact .ok h₂

theorem moved_readExport {ts us : List Token} (h : Forall₂ (Token.MovesTo offset) ts us) :
    Moved offset (readExport ts) (readExport us) := by
  cases h with
  | nil => exact .error _
  | @cons t u rest rest' ht hrest =>
      obtain ⟨-, rfl⟩ := ht
      unfold readExport
      dsimp only [kind_shift]
      split
      · exact .ok hrest
      · exact .error (.token _ t)

theorem moved_readUse {ts us : List Token} (h : Forall₂ (Token.MovesTo offset) ts us) :
    Moved offset (readUse ts) (readUse us) := by
  cases h with
  | nil => exact .error _
  | @cons t u rest rest' ht hrest =>
      obtain ⟨-, rfl⟩ := ht
      unfold readUse
      dsimp only [kind_shift]
      split
      · cases hrest with
        | nil => exact .ok .nil
        | @cons a _ after after' ha hafter =>
            have hall := Forall₂.cons ha hafter
            obtain ⟨-, rfl⟩ := ha
            dsimp only
            by_cases has : a.kind = .keyword .asName
            · have hmoved : (a.shift offset).kind = .keyword .asName := has
              rw [if_pos has, if_pos hmoved]
              cases hafter with
              | nil => exact .error _
              | @cons b _ final final' hb hfinal =>
                  obtain ⟨-, rfl⟩ := hb
                  dsimp only [kind_shift]
                  split
                  · exact .ok hfinal
                  · exact .error (.token _ b)
            · have hmoved : (a.shift offset).kind ≠ .keyword .asName := has
              rw [if_neg has, if_neg hmoved]
              exact .ok hall
      · exact .error (.token _ t)

/-! ## Nodes and programs -/

theorem moved_readConstruct {t : Token} {ts us : List Token} {p : Parts ts.length}
    {q : Parts us.length} (hparts : MovedParts offset p q) (ht : t.span.MovesBy offset)
    (h : Forall₂ (Token.MovesTo offset) ts us) :
    Moved offset (readConstruct t ts p) (readConstruct (t.shift offset) us q) := by
  unfold readConstruct
  dsimp only [kind_shift]
  cases t.kind with
  | lineBreak | lineComment | blockComment | identifier | integer | float | string => exact .ok h
  | mark m =>
      cases m with
      | openBracket =>
          apply (moved_readUntil hparts .closeBracket h _ _).bind
          intro elements after after' _ _ hafter
          exact .ok hafter
      | openParen => exact (moved_readCall hparts ht h _ _).node _ _
      | assign => exact (moved_readAssignment hparts h _ _).node _ _
      | loop => exact (moved_readIterator hparts h _ _).node _ _
      | condition => exact (moved_readConditional hparts h _ _).node _ _
      | result => exact (moved_readResult hparts h _ _).node _ _
      | closeBracket | openBrace | closeBrace | closeParen => exact .error (.token _ t)
  | keyword k =>
      cases k with
      | useModule => exact (moved_readUse h).node _ _
      | exportName => exact (moved_readExport h).node _ _
      | make =>
          apply (moved_readName .object h).bind
          intro name after after' _ _ hafter
          exact .ok hafter
      | get => exact (moved_readGet h).node _ _
      | set => exact (moved_readSet hparts h _ _).node _ _
      | define => exact (moved_readFunction hparts h _ _).node _ _
      | asName | otherwise | check => exact .error (.token _ t)

theorem moved_readNode {ts us : List Token} (h : Forall₂ (Token.MovesTo offset) ts us) :
    Moved offset (readNode ts) (readNode us) := by
  obtain ⟨bound, hbound⟩ : ∃ bound, ts.length < bound := ⟨_, Nat.lt_succ_self _⟩
  induction bound generalizing ts us with
  | zero => cases hbound
  | succ bound ih =>
      cases h with
      | nil =>
          rw [readNode]
          exact .error _
      | @cons t u rest rest' ht hrest =>
          obtain ⟨ht, rfl⟩ := ht
          rw [readNode_cons, readNode_cons]
          refine moved_readConstruct ?_ ht hrest
          intro ts us hts _ h
          exact ih h (Nat.lt_of_le_of_lt hts (Nat.lt_of_succ_lt_succ hbound))

theorem readProgram_of_movesTo {ts us : List Token} (h : Forall₂ (Token.MovesTo offset) ts us) :
    readProgram us = (readProgram ts).mapError (Refusal.shift offset) := by
  fun_induction readProgram ts generalizing us with
  | case1 =>
      cases h
      rw [readProgram]
      rfl
  | case2 t rest ih =>
      have hread := moved_readNode h
      cases h with
      | @cons _ u _ rest' ht hrest =>
          rw [readProgram]
          generalize readNode (t :: rest) = x, readNode (u :: rest') = y at hread ⊢
          cases hread with
          | error r => rfl
          | @ok first after after' hlt _ hafter =>
              simp only [ok_bind, ih after hlt hafter]
              cases readProgram after <;> rfl

theorem Refusal.locate_map_shift (offset : Nat) (r : Refusal) {ts : List Token} (h : ts ≠ []) :
    (r.shift offset).locate (ts.map (Token.shift offset)) = (r.locate ts).shift offset := by
  obtain ⟨last, hlast⟩ := Option.ne_none_iff_exists'.1 (mt List.getLast?_eq_none_iff.1 h)
  rw [locate, locate, List.getLast?_map, hlast]
  cases hplace : r.place <;> simp [shift, ParseError.shift, hplace, Token.shift, Span.emptyAt,
    Span.shift]

end Node

/-- Where tokens stand decides nothing but the place of an error. -/
theorem parse_map_shift {offset : Nat} {ts : List Token}
    (h : ∀ t ∈ ts, t.span.MovesBy offset) :
    parse (ts.map (Token.shift offset)) = (parse ts).mapError (ParseError.shift offset) := by
  have hread := Node.readProgram_of_movesTo (Node.forall₂_movesTo_iff.2 ⟨h, rfl⟩)
  unfold parse
  rw [hread]
  cases hprogram : Node.readProgram ts with
  | ok nodes => rfl
  | error r =>
      have hts := Node.ne_nil_of_readProgram_error hprogram
      exact congrArg Except.error (r.locate_map_shift offset hts)

end LijsCompiler
