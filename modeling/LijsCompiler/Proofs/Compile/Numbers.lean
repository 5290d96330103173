import LijsCompiler.Proofs.Lowering.Draws
import LijsCompiler.Proofs.Lowering.Outline
import LijsCompiler.Proofs.Number.Whole
import LijsCompiler.Proofs.Parser.Names
import LijsCompiler.Proofs.Value.Readability
import Mathlib.Data.List.TakeWhile

/-!
# Numbers of a source

The text of a number token is a digit with digits and dots after it.  What stands before its second
dot is digits, or digits, a point and digits, and such a text always has a value
(`exists_digits_of_isNumber`).  A source that is a whole number is compiled to a literal that keeps
the text and is written as the same number (`whole_numbers_survive`).
-/

namespace LijsCompiler

open ESTree Lowering

/-! ## The value of a text -/

namespace Decimal

theorem toLower_of_isDigit {c : Char} (hc : c.isDigit) : c.toLower = c := by
  have hupper : ¬ (c.val ≥ 'A'.val ∧ c.val ≤ 'Z'.val) := by
    intro h
    have halpha : c.isAlpha := Bool.or_eq_true_iff.2 (.inl (decide_eq_true h))
    exact Token.not_isAlpha_of_isDigit hc halpha
  exact dif_neg hupper

/-- A digit is neither a sign nor the first letter of a word for a number. -/
theorem read?_cons_of_isDigit {c : Char} (cs : List Char) (hc : c.isDigit) :
    read? (c :: cs) = readUnsigned false (c :: cs) := by
  have hsign : readSign (c :: cs) = (false, c :: cs) := by
    unfold readSign
    split
    · simp_all
    · simp_all
    · rfl
  have hword : ∀ word : String, word.toList.all (!Char.isDigit ·) →
      word ≠ String.ofList ((c :: cs).map Char.toLower) := by
    rintro _ hall rfl
    simp [toLower_of_isDigit hc, hc] at hall
  have hinf := hword "inf" (by decide)
  have hinfinity := hword "infinity" (by decide)
  have hnan := hword "nan" (by decide)
  unfold read?
  simp only [hsign, beq_iff_eq, Bool.or_eq_true]
  rw [if_neg (not_or.2 ⟨hinf.symm, hinfinity.symm⟩), if_neg hnan.symm]

section

variable {digits fraction : List Char}

/-- Digits alone are a whole number. -/
theorem read?_digits (hne : digits ≠ []) (h : ∀ d ∈ digits, d.isDigit) :
    read? digits = some (.ofDecimal false (ofDigits digits) 0) := by
  have htake := List.takeWhile_eq_self_iff.2 h
  have hdrop := List.dropWhile_eq_nil_iff.2 h
  obtain ⟨c, cs, rfl⟩ := List.exists_cons_of_ne_nil hne
  rw [read?_cons_of_isDigit cs (h c (List.mem_cons_self ..))]
  simp [readUnsigned, htake, hdrop, readExponent]

/-- Digits after a point are further digits, each for a tenth of the place before it. -/
theorem read?_point (hne : digits ≠ []) (h : ∀ d ∈ digits, d.isDigit)
    (hfraction : ∀ d ∈ fraction, d.isDigit) :
    read? (digits ++ '.' :: fraction) =
      some (.ofDecimal false (ofDigits (digits ++ fraction)) (-fraction.length)) := by
  have hpoint : ∀ c ∈ ('.' :: fraction).head?, c.isDigit = false := by
    rintro c ⟨⟩
    decide
  have htake := Token.takeWhile_append_of_stop h hpoint
  have hdrop := Token.dropWhile_append_of_stop h hpoint
  have hall := List.takeWhile_eq_self_iff.2 hfraction
  have hnone := List.dropWhile_eq_nil_iff.2 hfraction
  obtain ⟨c, cs, rfl⟩ := List.exists_cons_of_ne_nil hne
  rw [List.cons_append] at htake hdrop ⊢
  rw [read?_cons_of_isDigit _ (h c (List.mem_cons_self ..))]
  simp [readUnsigned, htake, hdrop, hall, hnone, readExponent]

end

end Decimal

/-! ## The text of a number token -/

theorem Token.Spells.isNumber {kind : TokenKind} {text : String} {cs : List Char}
    (h : Spells kind cs) (hkind : kind = .integer text ∨ kind = .float text) :
    IsNumber text.toList := by
  rcases hkind with rfl | rfl
  · cases h with
    | integer hnumber _ => exact hnumber
  · cases h with
    | float hnumber _ => exact hnumber

/-- Every token of a text is spelled somewhere. -/
theorem Token.exists_spells_of_lexes {position : Nat} {cs : List Char} {ts : List Token}
    (h : Lexes position cs ts) : ∀ t ∈ ts, ∃ text, Spells t.kind text := by
  induction h with
  | nil => simp
  | space _ ih => exact ih
  | token hcut _ ih =>
      rw [List.forall_mem_cons]
      exact ⟨⟨_, hcut.1⟩, ih⟩

theorem Token.isDigit_of_mem_takeWhile {cs : List Char} (h : ∀ d ∈ cs, isNumberChar d) :
    ∀ d ∈ cs.takeWhile (· != '.'), d.isDigit := by
  intro d hd
  have hdot : d ≠ '.' := by simpa using of_mem_takeWhile hd
  simpa [isNumberChar, hdot] using h d ((List.takeWhile_sublist _).mem hd)

/-- What stands before the second dot of a number is digits, or digits on the left of a point and
maybe more on its right. -/
theorem Token.exists_digits_of_isNumber {cs : List Char} (h : IsNumber cs) :
    ∃ digits fraction, digits ≠ [] ∧ (∀ d ∈ digits, d.isDigit) ∧ (∀ d ∈ fraction, d.isDigit) ∧
      (Text.beforeSecond '.' cs = digits ∧ fraction = [] ∨
        Text.beforeSecond '.' cs = digits ++ '.' :: fraction) := by
  have hchars := h.isNumberChar
  have hdigits := isDigit_of_mem_takeWhile hchars
  have hne : cs.takeWhile (· != '.') ≠ [] := by
    obtain ⟨c, rest, rfl, hc, -, -⟩ := h
    have hdot : c ≠ '.' := by
      rintro rfl
      cases hc
    simp [hdot]
  unfold Text.beforeSecond
  cases hdrop : cs.dropWhile (· != '.') with
  | nil => exact ⟨_, [], hne, hdigits, by simp, .inl ⟨rfl, rfl⟩⟩
  | cons dot after =>
      have hdot : dot ∈ (cs.dropWhile (· != '.')).head? := by
        rw [hdrop]
        rfl
      obtain rfl : dot = '.' := by simpa using head?_dropWhile_eq_false hdot
      have hafter : ∀ d ∈ after, isNumberChar d := by
        intro d hd
        refine hchars d ((List.dropWhile_sublist (· != '.')).mem ?_)
        rw [hdrop]
        exact List.mem_cons_of_mem _ hd
      exact ⟨_, _, hne, hdigits, isDigit_of_mem_takeWhile hafter, .inr rfl⟩

/-! ## Sources with one whole number -/

theorem Token.tokenize_of_spells {kind : TokenKind} {text : String}
    (h : Spells kind text.toList) (hend : EndsBefore kind none) :
    tokenize text = .ok [⟨kind, .ofPosition 0 (Text.byteLength text.toList)⟩] := by
  have hcut : Lexeme.IsCut ⟨kind, text.toList, []⟩ := ⟨h, hend⟩
  have hlexes : Lexes 0 (text.toList ++ []) [⟨kind, .ofPosition 0 (Text.byteLength text.toList)⟩] :=
    .token hcut .nil
  rw [List.append_nil] at hlexes
  exact tokenizeFrom_of_lexes hlexes

section

variable {digits : String}

theorem Token.isNumber_of_isDigit (hne : digits ≠ "") (h : ∀ d ∈ digits.toList, d.isDigit) :
    IsNumber digits.toList ∧ '.' ∉ digits.toList := by
  have hdot : '.' ∉ digits.toList := fun hmem => by cases h _ hmem
  refine ⟨?_, hdot⟩
  obtain ⟨c, rest, hcs⟩ := List.exists_cons_of_ne_nil (mt String.toList_eq_nil_iff.1 hne)
  refine ⟨c, rest, hcs, h c (by simp [hcs]), ?_, fun hlast => hdot (List.mem_of_getLast? hlast)⟩
  intro d hd
  simp [isNumberChar, h d (by simp [hcs, hd])]

theorem parseSource_digits (hne : digits ≠ "") (h : ∀ d ∈ digits.toList, d.isDigit) :
    parseSource digits = .ok [.integer digits] := by
  obtain ⟨hnumber, hdot⟩ := Token.isNumber_of_isDigit hne h
  have htokens := Token.tokenize_of_spells (.integer hnumber hdot) (by simp [Token.EndsBefore])
  rw [parseSource_eq_ok_iff]
  exact ⟨_, htokens, parse_eq_ok_iff.2 (.item (.integer rfl) .nil)⟩

theorem compile_digits (c : Configuration) (supply : Supply) (hne : digits ≠ "")
    (h : ∀ d ∈ digits.toList, d.isDigit) :
    compile c supply digits = .ok ⟨[numberLiteral digits], [], [], []⟩ := by
  rw [compile_eq_ok_iff]
  refine ⟨_, parseSource_digits hne h, ?_⟩
  have hnames := introduced_initialContext c.lowering supply [.integer digits]
  have hdrawn := drawn_initialContext c.lowering supply [.integer digits]
  change some (Lowered.mk [_] _ _ []) = _
  rw [hnames, hdrawn]

theorem Text.beforeSecond_of_not_mem {mark : Char} {cs : List Char} (h : mark ∉ cs) :
    beforeSecond mark cs = cs := by
  have hall : ∀ d ∈ cs, (d != mark) = true := by
    intro d hd
    rw [bne_iff_ne]
    rintro rfl
    exact h hd
  unfold beforeSecond
  rw [List.takeWhile_eq_self_iff.2 hall, List.dropWhile_eq_nil_iff.2 hall]

/-- A whole number that is safe is written without the zeros in front of it. -/
theorem toValue_literalValue {n : Nat} (hne : digits ≠ "") (h : ∀ d ∈ digits.toList, d.isDigit)
    (hvalue : Nat.ofDigitChars 10 digits.toList 0 = n) (hn : n ≤ greatestSafeInteger) :
    (Literal.number (Decimal.literalValue digits)).toValue = .integer n := by
  have hcut := Text.beforeSecond_of_not_mem (Token.isNumber_of_isDigit hne h).2
  have hread := Decimal.read?_digits (mt String.toList_eq_nil_iff.1 hne) h
  have hdigits : Decimal.ofDigits digits.toList = n := hvalue
  rw [Decimal.literalValue, hcut, hread, hdigits]
  exact Literal.toValue_ofDecimal hn

theorem Value.escapeChar_of_isDigit {c : Char} (hc : c.isDigit) : escapeChar c = [c] := by
  have hne : ∀ d, d.isDigit = false → ¬ (c == d) = true := by
    intro d hd heq
    rw [eq_of_beq heq, hd] at hc
    cases hc
  have hprinted : ¬ c.toNat < 0x20 := by
    simp only [Char.isDigit, Bool.and_eq_true, decide_eq_true_eq, ge_iff_le,
      UInt32.le_iff_toNat_le] at hc
    have hzero : '0'.val.toNat = 48 := rfl
    have hcode : c.toNat = c.val.toNat := rfl
    omega
  unfold escapeChar
  repeat rw [if_neg (hne _ (by decide))]
  exact if_neg hprinted

/-- Digits stand in a JSON string as they are. -/
theorem Value.quote_digits (h : ∀ d ∈ digits.toList, d.isDigit) :
    quote digits = '"' :: digits.toList ++ ['"'] := by
  have hescape : ∀ d ∈ digits.toList, escapeChar d = [d] := fun d hd =>
    escapeChar_of_isDigit (h d hd)
  unfold quote
  rw [List.flatMap_congr hescape, List.flatMap_singleton']

theorem toJson_literal {x : Binary64} {n : Nat} (h : ∀ d ∈ digits.toList, d.isDigit)
    (hx : (Literal.number x).toValue = .integer n) :
    (programValue [.literal (.number x) digits]).toJson =
      "\x7b\"type\":\"Program\",\"body\":[\x7b\"type\":\"Literal\",\"value\":" ++ toString n ++
        ",\"raw\":\"" ++ digits ++ "\"\x7d]\x7d" := by
  rw [← String.toList_inj]
  unfold Value.toJson programValue
  rw [toValues, toValue, toValues, hx, String.toList_ofList]
  simp only [Value.compact, Value.compactFields, Value.compactElements, Value.atom,
    Value.quote_digits h, String.toList_append, List.append_assoc, List.cons_append]
  rfl

end

/-- A source that is a whole number up to the greatest safe integer, with any number of zeros in
front, is compiled to one literal that keeps the text and is written as that number.  Of every
number token of a source, what stands before the second dot is digits, or digits, a point and
digits.  It has a value, so the value that stands in for a text without one is never used. -/
theorem whole_numbers_survive :
    (∀ (c : Configuration) (supply : Supply) (digits : String) (n : Nat), digits ≠ "" →
      (∀ d ∈ digits.toList, d.isDigit) → Nat.ofDigitChars 10 digits.toList 0 = n →
      n ≤ 9007199254740991 →
      ∃ lowered x, compile c supply digits = .ok lowered ∧
        lowered.body = [.literal (.number x) digits] ∧ (Literal.number x).toValue = .integer n ∧
        lowered.toJson =
          "\x7b\"type\":\"Program\",\"body\":[\x7b\"type\":\"Literal\",\"value\":" ++ toString n ++
            ",\"raw\":\"" ++ digits ++ "\"\x7d]\x7d") ∧
    (∀ source tokens, tokenize source = .ok tokens →
      ∀ t ∈ tokens, ∀ text, t.kind = .integer text ∨ t.kind = .float text →
      ∃ digits fraction, digits ≠ [] ∧ (∀ d ∈ digits, d.isDigit) ∧ (∀ d ∈ fraction, d.isDigit) ∧
        (Text.beforeSecond '.' text.toList = digits ∧ fraction = [] ∨
          Text.beforeSecond '.' text.toList = digits ++ '.' :: fraction) ∧
        Decimal.read? (Text.beforeSecond '.' text.toList) = some (Decimal.literalValue text) ∧
        Decimal.literalValue text =
          .ofDecimal false (Nat.ofDigitChars 10 (digits ++ fraction) 0) (-fraction.length)) := by
  constructor
  · intro c supply digits n hne hdigits hvalue hn
    have hinteger := toValue_literalValue hne hdigits hvalue hn
    have hjson := toJson_literal hdigits hinteger
    exact ⟨_, _, compile_digits c supply hne hdigits, rfl, hinteger, hjson⟩
  · intro source tokens htokens t ht text hkind
    have hlexes := Token.tokenizeFrom_eq_ok_iff.1 htokens
    obtain ⟨cs, hspells⟩ := Token.exists_spells_of_lexes hlexes t ht
    obtain ⟨digits, fraction, hne, hdigits, hfraction, hcut⟩ :=
      Token.exists_digits_of_isNumber (hspells.isNumber hkind)
    have hread : Decimal.read? (Text.beforeSecond '.' text.toList) =
        some (.ofDecimal false (Decimal.ofDigits (digits ++ fraction)) (-fraction.length)) := by
      rcases hcut with ⟨hcut, rfl⟩ | hcut
      · rw [hcut, List.append_nil]
        exact Decimal.read?_digits hne hdigits
      · rw [hcut]
        exact Decimal.read?_point hne hdigits hfraction
    have hvalue : Decimal.literalValue text =
        .ofDecimal false (Decimal.ofDigits (digits ++ fraction)) (-fraction.length) := by
      rw [Decimal.literalValue, hread, Option.getD_some]
    exact ⟨digits, fraction, hne, hdigits, hfraction, hcut, hvalue ▸ hread, hvalue⟩

/-- The greatest safe integer with two zeros in front keeps them in its text only.  Of `1..2` the
text `1.` is read. -/
theorem whole_numbers_survive_at_the_limit :
    (∃ lowered, compile {} (.ofSeed 0) "009007199254740991" = .ok lowered ∧
      lowered.toJson =
        "\x7b\"type\":\"Program\",\"body\":[\x7b\"type\":\"Literal\",\"value\":" ++
          "9007199254740991" ++ ",\"raw\":\"" ++ "009007199254740991" ++ "\"\x7d]\x7d") ∧
    (∃ tokens t, tokenize "1..2" = .ok tokens ∧ t ∈ tokens ∧ t.kind = .float "1..2" ∧
      Decimal.read? ['1', '.'] = some (Decimal.literalValue "1..2")) := by
  constructor
  · obtain ⟨lowered, x, hcompile, -, -, hjson⟩ :=
      whole_numbers_survive.1 {} (.ofSeed 0) "009007199254740991" 9007199254740991 (by decide)
        (List.all_eq_true.1 (by decide)) (by decide) (by decide)
    exact ⟨lowered, hcompile, hjson⟩
  · have hnumber : Token.IsNumber "1..2".toList :=
      ⟨'1', ['.', '.', '2'], rfl, by decide, by simp [Token.isNumberChar], by decide⟩
    have htokens := Token.tokenize_of_spells (.float hnumber (by decide))
      (by simp [Token.EndsBefore])
    obtain ⟨digits, fraction, -, -, -, -, hread, -⟩ :=
      whole_numbers_survive.2 "1..2" _ htokens _ (List.mem_singleton_self _) "1..2" (.inr rfl)
    exact ⟨_, _, htokens, List.mem_singleton_self _, rfl, hread⟩

end LijsCompiler
