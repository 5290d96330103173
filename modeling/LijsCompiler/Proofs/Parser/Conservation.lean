import LijsCompiler.Proofs.Node.Printer

/-!
# Nothing is lost in parsing

Line breaks, comments and braces are the layout of a program: the tree does not keep them.  All
other tokens stand in the tree, in the order in which they were written.  What a reader takes from
the front of a token list is, layout apart, what is printed of the nodes it gives
(`significant_of_reads`).
-/

namespace LijsCompiler

@[simp] def TokenKind.isLayout : TokenKind → Bool
  | .lineBreak | .lineComment _ | .blockComment _ | .mark .openBrace | .mark .closeBrace => true
  | _ => false

def significant (kinds : List TokenKind) : List TokenKind := kinds.filter (!·.isLayout)

@[simp] theorem significant_nil : significant [] = [] := rfl

@[simp] theorem significant_append (kinds others : List TokenKind) :
    significant (kinds ++ others) = significant kinds ++ significant others :=
  List.filter_append ..

@[simp] theorem significant_cons (kind : TokenKind) (kinds : List TokenKind) :
    significant (kind :: kinds) =
      if kind.isLayout then significant kinds else kind :: significant kinds := by
  rw [significant, List.filter_cons]
  cases kind.isLayout <;> rfl

theorem significant_cons_trivia {kind : TokenKind} (h : kind.isTrivia)
    (kinds : List TokenKind) : significant (kind :: kinds) = significant kinds := by
  cases kind with
  | lineBreak | lineComment | blockComment => rfl
  | _ => cases h

namespace Node

@[simp] theorem significant_braced (inner : List TokenKind) :
    significant (braced inner) = significant inner := by
  simp [braced]

section

variable (comment : Comment)

theorem printAll_append (nodes others : List Node) :
    printAll comment (nodes ++ others) = printAll comment nodes ++ printAll comment others := by
  induction nodes with
  | nil => rfl
  | cons node nodes ih => rw [List.cons_append, printAll, ih, printAll, List.append_assoc]

theorem printAll_singleton (node : Node) : printAll comment [node] = print comment node := by
  rw [printAll, printAll, List.append_nil]

theorem printOption_eq_printAll (value : Option Node) :
    printOption comment value = printAll comment value.toList := by
  cases value with
  | none => rfl
  | some node => exact (printAll_singleton comment node).symm

/-- The comment in the place of a missing value is layout. -/
theorem significant_print_result (value : Option Node) :
    significant (print comment (.result value)) =
      .mark .result :: significant (printOption comment value) := by
  cases value with
  | none => cases comment <;> rfl
  | some node => rfl

end

@[simp] def Form.closing : Form → List TokenKind
  | .upTo closer => [.mark closer]
  | _ => []

theorem significant_of_readsParams {ts rest : List Token} {params : List String}
    (h : ReadsParams ts params rest) :
    significant (ts.map Token.kind) =
      significant (params.map .identifier ++ [.mark .closeBracket]) ++
        significant (rest.map Token.kind) := by
  induction h with
  | close h => simp [h]
  | name h _ ih => simp [h, ih]
  | trivia h _ ih => rw [List.map_cons, significant_cons_trivia h, ih]

/-- What a form takes from the front is, layout apart, what is printed of its nodes. -/
theorem significant_of_reads (comment : Comment) {form : Form} {ts rest : List Token}
    {nodes : List Node} (h : Reads form ts nodes rest) :
    significant (ts.map Token.kind) =
      significant (printAll comment nodes ++ form.closing) ++
        significant (rest.map Token.kind) := by
  induction h with
  | trivia h => simp only [List.map_cons, significant_cons_trivia h, printAll, Form.closing,
      List.append_nil, significant_nil, List.nil_append]
  | identifier h | integer h | float h | string h =>
      simp [h, printAll_singleton, print]
  | array h _ ih => simp [h, ih, printAll_singleton, print]
  | assignment h hname _ _ ih => simp [h, hname, ih, printAll_singleton, print]
  | create h hname | exportName h hname =>
      simp [h, hname, printAll_singleton, print]
  | get h hname hkey =>
      rcases eq_of_keyOf? hkey with ⟨_, hk, rfl⟩ | ⟨_, hk, rfl⟩ <;>
        simp [h, hname, hk, printAll_singleton, print]
  | set h hname hkey _ ih =>
      rcases eq_of_keyOf? hkey with ⟨_, hk, rfl⟩ | ⟨_, hk, rfl⟩ <;>
        simp [h, hname, hk, ih, printAll_singleton, print]
  | useModule h hpath _ => simp [h, hpath, printAll_singleton, print]
  | useModuleAs h hpath has hbinding =>
      simp [h, hpath, has, hbinding, printAll_singleton, print]
  | function h hname hbracket hparams _ ih =>
      simp [h, hname, hbracket, significant_of_readsParams hparams, ih, printAll_singleton, print]
  | call h hname _ _ ih => simp [h, hname, ih, printAll_singleton, print]
  | arithmetic h hname hop _ ih =>
      simp [h, hname, ih, printAll, print, Form.closing, name_of_ofName? hop]
  | iterator h _ _ ihsource ihbody =>
      simp [h, ihsource, ihbody, printAll_singleton, print]
  | conditional h _ hcheck hright _ _ ihleft ihright ihpass =>
      have hoperand := (isSome_of_readsOperand hright).2
      simp [h, hcheck, ihleft, ihright, ihpass, printAll_singleton, print, printElse,
        printOption_eq_printAll, hoperand]
  | conditionalElse h _ hcheck hright _ helse _ ihleft ihright ihpass ihfail =>
      have hoperand := (isSome_of_readsOperand hright).2
      simp [h, hcheck, helse, ihleft, ihright, ihpass, ihfail, printAll_singleton, print, printElse,
        printOption_eq_printAll, hoperand]
  | resultAlone h _ =>
      simp [h, printAll_singleton, significant_print_result, printOption]
  | result h _ hvalue ih =>
      have hone := head?_toList_of_readsItem hvalue
      simp [h, ih, printAll_singleton, significant_print_result, printOption_eq_printAll, hone]
  | done h =>
      rw [List.map_cons, h]
      exact significant_append [_] _
  | more _ _ _ ihfirst ihnodes =>
      simp [ihfirst, ihnodes, printAll_append]
  | braces h _ ih => simp [h, ih]
  | single _ _ ih | operand _ _ ih => exact ih
  | noOperand => simp [printAll]

theorem significant_of_readsProgram (comment : Comment) {ts : List Token} {program : List Node}
    (h : ReadsProgram ts program) :
    significant (ts.map Token.kind) = significant (printAll comment program) := by
  induction h with
  | nil => rfl
  | item hfirst _ ih =>
      rw [significant_of_reads comment hfirst, ih, printAll_append, significant_append]
      simp

end Node

/-- A parsed program is printed with the tokens it was parsed from, layout apart. -/
theorem significant_of_parse (comment : Comment) {ts : List Token} {program : List Node}
    (h : parse ts = .ok program) :
    significant (ts.map Token.kind) = significant (Node.printAll comment program) :=
  Node.significant_of_readsProgram comment (parse_eq_ok_iff.1 h)

/-- A line break among parameters, a body without braces, and a comment for a missing value. -/
theorem significant_of_parse_function :
    parse ([.keyword .define, .identifier "f", .mark .openBracket, .lineBreak, .identifier "p",
        .mark .closeBracket, .mark .result, .lineComment "c", .lineBreak].map
          (Token.mk · default)) = .ok [.function "f" ["p"] [.result none]] ∧
      significant [.keyword .define, .identifier "f", .mark .openBracket, .lineBreak,
          .identifier "p", .mark .closeBracket, .mark .result, .lineComment "c", .lineBreak] =
        significant (Node.printAll (.block []) [.function "f" ["p"] [.result none]]) := by
  have hparse : parse ([.keyword .define, .identifier "f", .mark .openBracket, .lineBreak,
      .identifier "p", .mark .closeBracket, .mark .result, .lineComment "c", .lineBreak].map
        (Token.mk · default)) = .ok [.function "f" ["p"] [.result none]] := by
    refine parse_eq_ok_iff.2 (.item (.function rfl rfl rfl (.trivia rfl (.name rfl (.close rfl)))
      (.single (by simp) (.result rfl (by simp) (.trivia rfl)))) ?_)
    exact .item (.trivia rfl) .nil
  exact ⟨hparse, significant_of_parse (.block []) hparse⟩

end LijsCompiler
