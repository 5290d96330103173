import LijsCompiler.Proofs.Lexer.Spelling
import LijsCompiler.Proofs.Registry.Runs

/-!
# Stems

A stem is checked once, with the number 0 behind it.  Whether a text with digits behind it is a loop
index does not depend on which digits these are (`isLoopIndex_append_iff`), so the one check settles
all numbered names.
-/

namespace LijsCompiler

/-- A letter, `_` or `$`, followed by letters, digits, `_` or `$`. -/
def Name.IsIdentifier (text : String) : Prop :=
  ∃ c cs, text.toList = c :: cs ∧ (c.isAlpha ∨ c = '_' ∨ c = '$') ∧
    ∀ d ∈ cs, d.isAlpha ∨ d.isDigit ∨ d = '_' ∨ d = '$'

/-- Digits behind an identifier belong to it. -/
theorem Name.IsIdentifier.append {text : String} (h : IsIdentifier text) {digits : List Char}
    (hdigits : ∀ c ∈ digits, c.isDigit) : IsIdentifier (text ++ String.ofList digits) := by
  obtain ⟨c, cs, htext, hc, hcs⟩ := h
  refine ⟨c, cs ++ digits, ?_, hc, ?_⟩
  · rw [String.toList_append, htext, String.toList_ofList, List.cons_append]
  · rw [List.forall_mem_append]
    exact ⟨hcs, fun d hd => .inr (.inl (hdigits d hd))⟩

/-- `_i` and digits, if any. -/
def IsLoopStem (text : String) : Prop :=
  ∃ digits, (∀ c ∈ digits, c.isDigit) ∧ text = "_i" ++ String.ofList digits

/-- With digits behind it, a text is a loop index exactly if it is `_i` and digits, if any. -/
theorem isLoopIndex_append_iff {text : String} {digits : List Char} (hne : digits ≠ [])
    (hdigits : ∀ c ∈ digits, c.isDigit) :
    isLoopIndex (text ++ String.ofList digits) ↔ IsLoopStem text := by
  have hspelled (others : List Char) :
      text = "_i" ++ String.ofList others ↔ text.toList = ['_', 'i'] ++ others := by
    rw [← String.toList_inj, String.toList_append, String.toList_ofList (l := others)]
    rfl
  have hjoin : text ++ String.ofList digits = String.ofList (text.toList ++ digits) := by
    rw [String.ofList_append, String.ofList_toList]
  rw [hjoin, isLoopIndex_append hne hdigits, Bool.and_eq_true, beq_iff_eq, List.all_eq_true]
  unfold IsLoopStem
  simp only [hspelled]
  constructor
  · rintro ⟨hfront, hrest⟩
    refine ⟨text.toList.drop 2, hrest, ?_⟩
    rw [← hfront, List.take_append_drop]
  · rintro ⟨others, hothers, htext⟩
    rw [htext]
    exact ⟨rfl, hothers⟩

theorem isLoopIndex_append_toString_iff {text : String} (n : Nat) :
    isLoopIndex (text ++ toString n) ↔ IsLoopStem text := by
  rw [Nat.toString_eq_ofList_toDigits]
  exact isLoopIndex_append_iff Nat.toDigits_ne_nil isDigit_of_mem_toDigits

namespace Stem

theorem isStemChar_iff {c : Char} :
    isStemChar c ↔ c.isAlpha ∨ c.isDigit ∨ c = '_' ∨ c = '$' := by
  simp [isStemChar, Char.isAlphanum, or_assoc]

theorem isStemChar_and_not_isDigit_iff {c : Char} :
    isStemChar c ∧ c.isDigit = false ↔ c.isAlpha ∨ c = '_' ∨ c = '$' := by
  rw [isStemChar_iff]
  constructor
  · rintro ⟨hc | hc | hc, hdigit⟩
    · exact .inl hc
    · rw [hc] at hdigit
      cases hdigit
    · exact .inr hc
  · rintro (hc | rfl | rfl)
    · refine ⟨.inl hc, ?_⟩
      rw [← Bool.not_eq_true]
      exact fun hdigit => Token.not_isAlpha_of_isDigit hdigit hc
    · decide
    · decide

theorem isIdentifier_iff {text : String} :
    isIdentifier text.toList ↔ Name.IsIdentifier text := by
  unfold Name.IsIdentifier
  cases htext : text.toList with
  | nil => simp [isIdentifier]
  | cons c cs =>
      rw [isIdentifier, Bool.and_eq_true, Bool.and_eq_true, Bool.not_eq_true',
        isStemChar_and_not_isDigit_iff, List.all_eq_true]
      simp only [isStemChar_iff]
      constructor
      · rintro ⟨hc, hcs⟩
        exact ⟨c, cs, rfl, hc, hcs⟩
      · rintro ⟨_, _, hcons, hc, hcs⟩
        cases hcons
        exact ⟨hc, hcs⟩

theorem isLoopIndex_zero_iff {text : String} : isLoopIndex (text ++ "0") ↔ IsLoopStem text :=
  isLoopIndex_append_toString_iff 0

/-! ## The check of a stem -/

theorem fault?_eq_none_iff_isIdentifier {text : String} :
    fault? text = none ↔ Name.IsIdentifier text ∧ ¬ IsLoopStem text := by
  rw [fault?_eq_none_iff, isIdentifier_iff, ← Bool.not_eq_true, isLoopIndex_zero_iff]

theorem isLoopStem_of_fault? {text shown : String} (h : fault? text = some (.loopIndexStem shown)) :
    IsLoopStem text := by
  unfold fault? at h
  split at h
  · cases h
  · split at h
    · rename_i hindex
      exact isLoopIndex_zero_iff.1 hindex
    · cases h

theorem ofString_eq_ok_iff {text : String} {stem : Stem} :
    ofString text = .ok stem ↔ stem.text = text := by
  unfold ofString
  constructor
  · intro h
    split at h
    · cases h
      rfl
    · cases h
  · rintro rfl
    split
    · rfl
    · rename_i hfault
      rw [stem.valid] at hfault
      cases hfault

theorem fault?_of_ofString_eq_error {text : String} {fault : StrategyFault}
    (h : ofString text = .error fault) : fault? text = some fault := by
  unfold ofString at h
  split at h
  · cases h
  · cases h
    assumption

/-- A text is a stem exactly if it is an identifier and not `_i` with digits, if any.  A number
behind a stem gives an identifier, which begins with no digit and is no loop index.  Of a text that
is refused for loop indices no number gives a name that any registry accepts or draws. -/
theorem ofString_settles_numbered (text : String) :
    ((∃ stem, ofString text = .ok stem) ↔
        Name.IsIdentifier text ∧
          ¬ ∃ digits, (∀ c ∈ digits, c.isDigit) ∧ text = "_i" ++ String.ofList digits) ∧
      (∀ stem, ofString text = .ok stem → ∀ n,
        stem.numbered n = text ++ toString n ∧
          Name.IsIdentifier (text ++ toString n) ∧
          Name.startsWithDigit (text ++ toString n) = false ∧
          ∀ depth, text ++ toString n ≠ loopIndex depth) ∧
      ∀ shown, ofString text = .error (.loopIndexStem shown) → ∀ (n : Nat) (r : Registry),
        r.accepts (text ++ toString n) = false ∧
          ∀ limit r', r.search limit ≠ some (text ++ toString n, r') := by
  refine ⟨?_, ?_, ?_⟩
  · rw [← IsLoopStem, ← fault?_eq_none_iff_isIdentifier]
    constructor
    · rintro ⟨stem, hstem⟩
      rw [← ofString_eq_ok_iff.1 hstem]
      exact stem.valid
    · intro hvalid
      exact ⟨⟨text, hvalid⟩, ofString_eq_ok_iff.2 rfl⟩
  · intro stem hstem n
    obtain rfl := ofString_eq_ok_iff.1 hstem
    obtain ⟨hidentifier, hno⟩ := fault?_eq_none_iff_isIdentifier.1 stem.valid
    refine ⟨rfl, ?_, startsWithDigit_numbered stem n, ?_⟩
    · rw [Nat.toString_eq_ofList_toDigits]
      exact hidentifier.append isDigit_of_mem_toDigits
    · intro depth heq
      have hindex := isLoopIndex_loopIndex depth
      rw [← heq] at hindex
      exact hno ((isLoopIndex_append_toString_iff n).1 hindex)
  · intro shown hrefused n r
    have hstem := isLoopStem_of_fault? (fault?_of_ofString_eq_error hrefused)
    have hindex : isLoopIndex (text ++ toString n) := (isLoopIndex_append_toString_iff n).2 hstem
    constructor
    · rw [Registry.accepts, hindex]
      simp
    · intro limit r' hsearch
      have hnot := (Registry.draws_of_search hsearch).isLoopIndex
      rw [hindex] at hnot
      cases hnot

/-- A stem that looks like a loop index up to its last character, and a text that is refused. -/
theorem ofString_settles_numbered_lookalikes :
    (∃ stem, ofString "_i1x" = .ok stem ∧
        ∀ n depth : Nat, "_i1x" ++ toString n ≠ loopIndex depth) ∧
      ofString "_i12" = .error (.loopIndexStem "_i12") ∧
      ∀ (n : Nat) (r : Registry), r.accepts ("_i12" ++ toString n) = false := by
  have hspelled : Stem.fault? "_i1x" = none := by decide
  have hstem : ofString "_i1x" = .ok ⟨"_i1x", hspelled⟩ := ofString_eq_ok_iff.2 rfl
  have hrefused : ofString "_i12" = .error (.loopIndexStem "_i12") := by rfl
  obtain ⟨-, hnumbered, -⟩ := ofString_settles_numbered "_i1x"
  obtain ⟨-, -, hnone⟩ := ofString_settles_numbered "_i12"
  refine ⟨⟨_, hstem, fun n => (hnumbered _ hstem n).2.2.2⟩, hrefused, ?_⟩
  exact fun n r => (hnone _ hrefused n r).1

end Stem

end LijsCompiler
