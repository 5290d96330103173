import Mathlib.Data.List.Basic
import LijsCompiler.Proofs.Parser.Grammar

/-!
# What may come next

The rules of the grammar look no further than the kind of the first token that they leave, and not
at its text.  What was read is therefore read again in front of any tokens that begin with a token of
that kind, and where the tokens end (`Alike`).

Three constructs look at that token at all: `use` looks for `as`, a condition for `else`, and `!`
for the end of a line.  So if the tokens end, or go on in any other way, a line break or a comment may
stand there instead (`Continues`), with one exception: `!` takes a comment as if it were its value.
-/

namespace LijsCompiler

namespace TokenKind

def withoutText : TokenKind → TokenKind
  | identifier _ => identifier ""
  | integer _ => integer ""
  | float _ => float ""
  | string _ => string ""
  | lineComment _ => lineComment ""
  | blockComment _ => blockComment []
  | kind => kind

theorem withoutText_eq_keyword_iff {kind : TokenKind} {k : Keyword} :
    kind.withoutText = keyword k ↔ kind = keyword k := by
  cases kind <;> simp [withoutText]

theorem withoutText_eq_lineBreak_iff {kind : TokenKind} :
    kind.withoutText = lineBreak ↔ kind = lineBreak := by
  cases kind <;> simp [withoutText]

end TokenKind

namespace Node

mutual

/-- Whether a node ends with a condition that has no `else`. -/
def isOpen : Node → Bool
  | assignment _ value | set _ _ value | result (some value) => isOpen value
  | function _ _ body | iterator _ body => endsOpen body
  | conditional _ _ _ _ fail => branchIsOpen fail
  | _ => false

def endsOpen : List Node → Bool
  | [] => false
  | [node] => isOpen node
  | _ :: node :: nodes => endsOpen (node :: nodes)

def branchIsOpen : Option (List Node) → Bool
  | none => true
  | some nodes => endsOpen nodes

end

theorem endsOpen_result {value : List Node} (h : value.head?.toList = value) :
    endsOpen [.result value.head?] = endsOpen value := by
  rcases value with _ | ⟨node, _ | ⟨_, _⟩⟩
  · rfl
  · rfl
  · simp at h

theorem endsOpen_append (nodes : List Node) {others : List Node} (h : endsOpen others = true) :
    endsOpen (nodes ++ others) = true := by
  induction nodes with
  | nil => exact h
  | cons node nodes ih =>
      cases hall : nodes ++ others with
      | nil =>
          rw [hall] at ih
          cases ih
      | cons next tail => rwa [List.cons_append, hall, endsOpen, ← hall]

def lastKind? (ts : List Token) : Option TokenKind := ts.getLast?.map (·.kind)

theorem lastKind?_append (ts : List Token) {us : List Token} (h : us ≠ []) :
    lastKind? (ts ++ us) = lastKind? us := by
  rw [lastKind?, List.getLast?_append_of_ne_nil ts h, lastKind?]

theorem nextKind?_append {ts : List Token} (h : ts ≠ []) (us : List Token) :
    nextKind? (ts ++ us) = nextKind? ts := by
  rw [nextKind?, List.head?_append_of_ne_nil ts h, nextKind?]

/-- The tokens `left` are empty, or they begin with a token of the kind that `rest` begins with. -/
def Alike (rest left : List Token) : Prop :=
  ∀ kind ∈ nextKind? left, ∃ other ∈ nextKind? rest, kind.withoutText = other.withoutText

/-- Tokens with the same tokens in front are alike. -/
theorem alike_append {ts : List Token} (h : ts ≠ []) {rest left : List Token} :
    Alike (ts ++ rest) (ts ++ left) := by
  intro kind hkind
  rw [nextKind?_append h] at hkind ⊢
  exact ⟨kind, hkind, rfl⟩

theorem alike_cons {t : Token} {rest left : List Token} : Alike (t :: rest) (t :: left) :=
  alike_append (List.cons_ne_nil t [])

theorem Alike.nextKind?_ne {rest left : List Token} {k : Keyword} (h : Alike rest left)
    (hrest : nextKind? rest ≠ some (.keyword k)) : nextKind? left ≠ some (.keyword k) := by
  intro hleft
  obtain ⟨other, hother, heq⟩ := h _ hleft
  obtain rfl := TokenKind.withoutText_eq_keyword_iff.1 heq.symm
  exact hrest hother

/-- Where a result needs no value, it needs none before tokens alike. -/
theorem Alike.lineBreak {rest left : List Token} (h : Alike rest left)
    (hrest : rest = [] ∨ nextKind? rest = some .lineBreak) :
    left = [] ∨ nextKind? left = some .lineBreak := by
  cases left with
  | nil => exact .inl rfl
  | cons t left =>
      right
      obtain ⟨other, hother, heq⟩ := h t.kind rfl
      rcases hrest with rfl | hrest
      · cases hother
      · obtain rfl : other = .lineBreak := Option.some.inj (hother.symm.trans hrest)
        exact congrArg some (TokenKind.withoutText_eq_lineBreak_iff.1 heq)

/-- `Continues read nodes rest after left`: the tokens `read` gave `nodes` in front of `rest`, and
`after` may stand in place of `rest`, of which `left` is left over. -/
inductive Continues (read : List Token) (nodes : List Node) (rest : List Token) :
    List Token → List Token → Prop where
  | alike {left : List Token} (h : Alike rest left) :
      Continues read nodes rest left left
  | trivia {n : Token} {us : List Token} (hn : n.kind.isTrivia)
      (hbreak : lastKind? read = some (.mark .result) → n.kind = .lineBreak) :
      Continues read nodes rest (n :: us) (n :: us)
  /-- A result without a value takes a comment, so that an `else` after it is seen. -/
  | comment {n : Token} {us : List Token} (hn : n.kind.isTrivia) (hbreak : n.kind ≠ .lineBreak)
      (hresult : lastKind? read = some (.mark .result))
      (helse : nextKind? us = some (.keyword .otherwise) → endsOpen nodes = false) :
      Continues read nodes rest (n :: us) us

namespace Continues

variable {read : List Token} {nodes others : List Node} {rest after left : List Token}

/-- What may stand after a construct may stand after its last part. -/
theorem last (h : Continues read nodes rest after left) {part : List Token}
    (hread : lastKind? read = lastKind? part)
    (hopen : endsOpen nodes = false → endsOpen others = false) :
    Continues part others rest after left := by
  cases h with
  | alike h => exact .alike h
  | trivia hn hbreak => exact .trivia hn (hread ▸ hbreak)
  | comment hn hbreak hresult helse =>
      exact .comment hn hbreak (hread ▸ hresult) fun h => hopen (helse h)

/-- Only a result without a value takes a token. -/
theorem eq_of_lastKind? {kind : TokenKind} (h : Continues read nodes rest after left)
    (hread : lastKind? read = some kind) (hkind : kind ≠ .mark .result) : after = left := by
  cases h with
  | alike | trivia => rfl
  | comment _ _ hresult =>
      rw [hread] at hresult
      exact absurd (Option.some.inj hresult) hkind

theorem nextKind?_ne {k : Keyword} (h : Continues read nodes rest after left)
    (hrest : nextKind? rest ≠ some (.keyword k))
    (hclosed : k = .otherwise ∧ endsOpen nodes = true ∨ lastKind? read ≠ some (.mark .result)) :
    nextKind? left ≠ some (.keyword k) := by
  cases h with
  | alike h => exact h.nextKind?_ne hrest
  | trivia hn =>
      intro heq
      rw [nextKind?_cons, Option.some.injEq] at heq
      rw [heq] at hn
      cases hn
  | comment _ _ hresult helse =>
      rcases hclosed with ⟨rfl, hopen⟩ | hclosed
      · intro heq
        rw [helse heq] at hopen
        cases hopen
      · exact absurd hresult hclosed

end Continues

/-- What it means for each form that `read` was read in front of `rest`: the same is read in front
of whatever continues it.  A list that is closed by a mark goes before anything. -/
def Stands : Form → List Token → List Node → List Token → Prop
  | .item, read, nodes, rest =>
      read ≠ [] ∧ ∀ after left, Continues read nodes rest after left →
        Reads .item (read ++ after) nodes left
  | .upTo closer, read, nodes, _ =>
      lastKind? read = some (.mark closer) ∧ ∀ left, Reads (.upTo closer) (read ++ left) nodes left
  | .body, read, nodes, rest =>
      read ≠ [] ∧ ∀ after left, Continues read nodes rest after left →
        Reads .body (read ++ after) nodes left
  | .operand check, read, nodes, rest =>
      ∀ after left, Continues read nodes rest after left →
        Reads (.operand check) (read ++ after) nodes left

theorem ne_nil_of_lastKind? {ts : List Token} {kind : TokenKind} (h : lastKind? ts = some kind) :
    ts ≠ [] := by
  rintro rfl
  cases h

theorem exists_read_of_readsParams {ts rest : List Token} {names : List String}
    (h : ReadsParams ts names rest) :
    ∃ read, ts = read ++ rest ∧ ∀ left, ReadsParams (read ++ left) names left := by
  induction h with
  | @close t rest h => exact ⟨[t], rfl, fun _ => .close h⟩
  | @name t _ _ _ _ h _ ih =>
      obtain ⟨read, rfl, hread⟩ := ih
      exact ⟨t :: read, rfl, fun left => .name h (hread left)⟩
  | @trivia t _ _ _ h _ ih =>
      obtain ⟨read, rfl, hread⟩ := ih
      exact ⟨t :: read, rfl, fun left => .trivia h (hread left)⟩

/-- A construct that ends with a token of a fixed kind, and does not look at the next one. -/
theorem stands_of_lastKind? {read : List Token} {nodes : List Node} {rest : List Token}
    {kind : TokenKind} (hread : lastKind? read = some kind) (hkind : kind ≠ .mark .result)
    (h : ∀ left, Reads .item (read ++ left) nodes left) : Stands .item read nodes rest := by
  refine ⟨ne_nil_of_lastKind? hread, fun after left hnext => ?_⟩
  obtain rfl := hnext.eq_of_lastKind? hread hkind
  exact h after

/-- Whatever is read can be split off from the tokens that are left, and stands before others. -/
theorem exists_read_of_reads {form : Form} {ts rest : List Token} {nodes : List Node}
    (h : Reads form ts nodes rest) :
    ∃ read, ts = read ++ rest ∧ Stands form read nodes rest := by
  -- in a construct of several parts, a part sees the first token of the next one, which is the
  -- same whatever continues the whole; so only the last part is continued as the whole is
  induction h with
  | @trivia t rest h =>
      have hlast : lastKind? [t] = some t.kind := rfl
      refine ⟨[t], rfl, stands_of_lastKind? hlast ?_ fun _ => .trivia h⟩
      intro heq
      rw [heq] at h
      cases h
  | @identifier t rest name h =>
      exact ⟨[t], rfl, stands_of_lastKind? (congrArg some h) (by simp) fun _ => .identifier h⟩
  | @integer t rest text h =>
      exact ⟨[t], rfl, stands_of_lastKind? (congrArg some h) (by simp) fun _ => .integer h⟩
  | @float t rest text h =>
      exact ⟨[t], rfl, stands_of_lastKind? (congrArg some h) (by simp) fun _ => .float h⟩
  | @string t rest text h =>
      exact ⟨[t], rfl, stands_of_lastKind? (congrArg some h) (by simp) fun _ => .string h⟩
  | @create t n rest name h hname =>
      exact ⟨[t, n], rfl,
        stands_of_lastKind? (congrArg some hname) (by simp) fun _ => .create h hname⟩
  | @exportName t n rest name h hname =>
      exact ⟨[t, n], rfl,
        stands_of_lastKind? (congrArg some hname) (by simp) fun _ => .exportName h hname⟩
  | @get t n k rest name key h hname hkey =>
      have hlast : lastKind? [t, n, k] = some k.kind := rfl
      refine ⟨[t, n, k], rfl, stands_of_lastKind? hlast ?_ fun _ => .get h hname hkey⟩
      intro heq
      rw [heq] at hkey
      cases hkey
  | @useModuleAs t p a b rest path binding h hpath has hbinding =>
      exact ⟨[t, p, a, b], rfl, stands_of_lastKind? (congrArg some hbinding) (by simp)
        fun _ => .useModuleAs h hpath has hbinding⟩
  | @useModule t p rest path h hpath hnext =>
      have hlast : lastKind? [t, p] = some (.string path) := congrArg some hpath
      refine ⟨[t, p], rfl, by simp, fun after left hcontinues => ?_⟩
      obtain rfl := hcontinues.eq_of_lastKind? hlast (by simp)
      exact .useModule h hpath (hcontinues.nextKind?_ne hnext (.inr (by simp [hlast])))
  | @array t rest after elements h _ ih =>
      obtain ⟨read, rfl, hlast, hread⟩ := ih
      have hne := ne_nil_of_lastKind? hlast
      exact ⟨t :: read, rfl, stands_of_lastKind? ((lastKind?_append [t] hne).trans hlast) (by simp)
        fun left => .array h (hread left)⟩
  | @call t n rest after name args h hname _ hcall ih =>
      obtain ⟨read, rfl, hlast, hread⟩ := ih
      have hne := ne_nil_of_lastKind? hlast
      exact ⟨t :: n :: read, rfl, stands_of_lastKind? ((lastKind?_append [t, n] hne).trans hlast)
        (by simp) fun left => .call h hname (hread left) hcall⟩
  | @arithmetic t n rest after name op left right h hname hop _ ih =>
      obtain ⟨read, rfl, hlast, hread⟩ := ih
      have hne := ne_nil_of_lastKind? hlast
      exact ⟨t :: n :: read, rfl, stands_of_lastKind? ((lastKind?_append [t, n] hne).trans hlast)
        (by simp) fun left => .arithmetic h hname hop (hread left)⟩
  | @assignment t n rest after name value h hname _ hkind ih =>
      obtain ⟨read, rfl, hne, hread⟩ := ih
      refine ⟨t :: n :: read, rfl, by simp, fun after left hnext => ?_⟩
      exact .assignment h hname
        (hread _ _ (hnext.last (lastKind?_append [t, n] hne) id)) hkind
  | @set t n k rest after name key value h hname hkey _ ih =>
      obtain ⟨read, rfl, hne, hread⟩ := ih
      refine ⟨t :: n :: k :: read, rfl, by simp, fun after left hnext => ?_⟩
      exact .set h hname hkey
        (hread _ _ (hnext.last (lastKind?_append [t, n, k] hne) id))
  | @function t n b rest inner after name params body h hname hbracket hparams _ ih =>
      obtain ⟨front, rfl, hfront⟩ := exists_read_of_readsParams hparams
      obtain ⟨read, rfl, hne, hread⟩ := ih
      refine ⟨t :: n :: b :: (front ++ read), by simp, by simp, fun after left hnext => ?_⟩
      have hbody := hread _ _ (hnext.last (lastKind?_append (t :: n :: b :: front) hne) id)
      have hfunction := Reads.function h hname hbracket (hfront (read ++ after)) hbody
      simpa using hfunction
  | @iterator t rest inner after source body h _ _ ihsource ihbody =>
      obtain ⟨front, rfl, -, hfront⟩ := ihsource
      obtain ⟨read, rfl, hne, hread⟩ := ihbody
      refine ⟨t :: (front ++ read), by simp, by simp, fun tail left hnext => ?_⟩
      have hbody := hread _ _ (hnext.last (lastKind?_append (t :: front) hne) id)
      have hsource := hfront (read ++ tail) _ (.alike (alike_append hne))
      simpa using Reads.iterator h hsource hbody
  | @conditional t c rest ts₁ ts₂ ts₃ check left right pass h _ hcheck _ _ hnext ihleft ihright
      ihpass =>
      obtain ⟨front, rfl, -, hfront⟩ := ihleft
      obtain ⟨middle, rfl, hmiddle⟩ := ihright
      obtain ⟨read, rfl, hne, hread⟩ := ihpass
      refine ⟨(t :: (front ++ c :: middle)) ++ read, by simp, by simp, fun after final hfinal => ?_⟩
      have hleft := hfront (c :: (middle ++ (read ++ after))) _ (.alike alike_cons)
      have hright := hmiddle (read ++ after) _
        (.alike (alike_append hne))
      have hpass := hread _ _ (hfinal.last (lastKind?_append _ hne) (by simp [endsOpen, isOpen,
        branchIsOpen]))
      have helse := hfinal.nextKind?_ne hnext (.inl ⟨rfl, rfl⟩)
      simpa using Reads.conditional h hleft hcheck hright hpass helse
  | @conditionalElse t c e rest ts₁ ts₂ ts₃ ts₄ check left right pass fail h _ hcheck _ _ helse _
      ihleft ihright ihpass ihfail =>
      obtain ⟨front, rfl, -, hfront⟩ := ihleft
      obtain ⟨middle, rfl, hmiddle⟩ := ihright
      obtain ⟨branch, rfl, hbranch, hpasses⟩ := ihpass
      obtain ⟨read, rfl, hne, hread⟩ := ihfail
      refine ⟨(t :: (front ++ c :: (middle ++ (branch ++ [e])))) ++ read, by simp, by simp,
        fun after final hfinal => ?_⟩
      have hleft := hfront (c :: (middle ++ (branch ++ e :: (read ++ after)))) _ (.alike alike_cons)
      have hright := hmiddle (branch ++ e :: (read ++ after)) _
        (.alike (alike_append hbranch))
      have hpass := hpasses (e :: (read ++ after)) _ (.alike alike_cons)
      have hfail := hread _ _ (hfinal.last (lastKind?_append _ hne) id)
      simpa using Reads.conditionalElse h hleft hcheck hright hpass helse hfail
  | @resultAlone t rest h hnext =>
      refine ⟨[t], rfl, by simp, fun after left hcontinues => ?_⟩
      cases hcontinues with
      | alike halike => exact .resultAlone h (halike.lineBreak hnext)
      | trivia _ hbreak =>
          exact .resultAlone h (.inr (congrArg some (hbreak (congrArg some h))))
      | @comment n _ hn hbreak =>
          have hnext : nextKind? (n :: left) ≠ some .lineBreak := by simpa using hbreak
          exact .result h hnext (.trivia hn)
  | @result t rest after value h hnext hvalue ih =>
      obtain ⟨read, rfl, hne, hread⟩ := ih
      refine ⟨t :: read, rfl, by simp, fun after left hcontinues => ?_⟩
      have hopen := endsOpen_result (head?_toList_of_readsItem hvalue)
      have hvalue := hread _ _ (hcontinues.last (lastKind?_append [t] hne) hopen.symm.trans)
      rw [nextKind?_append hne, ← nextKind?_append hne after] at hnext
      exact .result h hnext hvalue
  | @done t rest closer h =>
      exact ⟨[t], rfl, congrArg some h, fun _ => .done h⟩
  | @more ts after final closer first nodes hnext _ _ ihfirst ihnodes =>
      obtain ⟨front, rfl, hfirst, hfront⟩ := ihfirst
      obtain ⟨read, rfl, hlast, hread⟩ := ihnodes
      have hne := ne_nil_of_lastKind? hlast
      refine ⟨front ++ read, by simp, (lastKind?_append front hne).trans hlast, fun left => ?_⟩
      rw [List.append_assoc]
      refine .more ?_ (hfront (read ++ left) _ (.alike (alike_append hne))) (hread left)
      rwa [nextKind?_append hfirst] at hnext ⊢
  | @braces t rest after nodes h _ ih =>
      obtain ⟨read, rfl, hlast, hread⟩ := ih
      have hne := ne_nil_of_lastKind? hlast
      refine ⟨t :: read, rfl, by simp, fun after left hnext => ?_⟩
      obtain rfl := hnext.eq_of_lastKind? ((lastKind?_append [t] hne).trans hlast) (by simp)
      exact .braces h (hread after)
  | @single ts after nodes hnext _ ih =>
      obtain ⟨read, rfl, hne, hread⟩ := ih
      refine ⟨read, rfl, hne, fun after left hcontinues => .single ?_ (hread _ _ hcontinues)⟩
      rwa [nextKind?_append hne] at hnext ⊢
  | @operand ts after check right hcheck _ ih =>
      obtain ⟨read, rfl, -, hread⟩ := ih
      exact ⟨read, rfl, fun after left hnext => .operand hcheck (hread _ _ hnext)⟩
  | @noOperand ts check hcheck =>
      refine ⟨[], rfl, fun after left hnext => ?_⟩
      cases hnext with
      | alike | trivia => exact .noOperand hcheck
      | comment _ _ hresult => cases hresult

/-- What leaves a token is read in the same way if more tokens follow. -/
theorem reads_append_of_cons {form : Form} {ts rest : List Token} {nodes : List Node} {t : Token}
    (h : Reads form ts nodes (t :: rest)) (us : List Token) :
    Reads form (ts ++ us) nodes (t :: rest ++ us) := by
  obtain ⟨read, rfl, hstands⟩ := exists_read_of_reads h
  rw [List.append_assoc]
  cases form with
  | item | body => exact hstands.2 _ _ (.alike alike_cons)
  | upTo => exact hstands.2 _
  | operand => exact hstands _ _ (.alike alike_cons)

theorem readsUpTo_append {closer : Mark} {ts rest : List Token} {nodes : List Node}
    (h : Reads (.upTo closer) ts nodes rest) (us : List Token) :
    Reads (.upTo closer) (ts ++ us) nodes (rest ++ us) := by
  obtain ⟨read, rfl, -, hread⟩ := exists_read_of_reads h
  rw [List.append_assoc]
  exact hread _

theorem readsParams_append {ts rest : List Token} {names : List String}
    (h : ReadsParams ts names rest) (us : List Token) :
    ReadsParams (ts ++ us) names (rest ++ us) := by
  obtain ⟨read, rfl, hread⟩ := exists_read_of_readsParams h
  rw [List.append_assoc]
  exact hread _

end Node

end LijsCompiler
