import LijsCompiler.Proofs.Lexer.Spelling
import LijsCompiler.Value.Json
import LijsCompiler.Value.Reader

/-!
# JSON text is read in one way

The compact text of a value says where it ends.  A string ends at its closing quote, an array and an
object end at their closing bracket, and every other value is a word of letters, digits and signs,
which ends where another character follows.  So two values whose texts begin the same text are equal
up to their numbers (`isReadable`): a number is known by its text only, and what is no finite number
has the text of `null`.
-/

namespace LijsCompiler

namespace Value

/-! ## Quoted text -/

/-- A character stands for itself, or two letters or the four digits of its code do. -/
theorem escapeChar_cases (c : Char) :
    (∃ d, d ≠ 'u' ∧ unescape? d = some c ∧ escapeChar c = ['\\', d]) ∨
      (c.toNat < 0x20 ∧ escapeChar c =
        ['\\', 'u', '0', '0', hexDigit (c.toNat / 16), hexDigit (c.toNat % 16)]) ∨
      (c ≠ '"' ∧ c ≠ '\\' ∧ ¬ c.toNat < 0x20 ∧ escapeChar c = [c]) := by
  unfold escapeChar
  repeat' split
  all_goals simp_all [unescape?]

theorem ofHex?_hexDigit : ∀ n : Fin 32,
    ofHex? ['0', '0', hexDigit (n / 16), hexDigit (n % 16)] = some n.val := by
  decide

theorem exists_ofHex?_of_readQuoted {a b c d : Char} {rest : List Char}
    {found : List Char × List Char}
    (h : readQuoted ('\\' :: 'u' :: a :: b :: c :: d :: rest) = some found) :
    ∃ code, ofHex? [a, b, c, d] = some code := by
  by_cases hpair : ∃ e f g h more, rest = '\\' :: 'u' :: e :: f :: g :: h :: more
  · obtain ⟨e, f, g, h, more, rfl⟩ := hpair
    rw [readQuoted] at h
    obtain ⟨code, hcode, -⟩ := Option.bind_eq_some_iff.1 h
    exact ⟨code, hcode⟩
  · rw [readQuoted] at h
    · obtain ⟨code, hcode, -⟩ := Option.bind_eq_some_iff.1 h
      exact ⟨code, hcode⟩
    · intro e f g h more heq
      exact hpair ⟨e, f, g, h, more, heq⟩

/-- A code below the surrogates is one character, whatever escape comes next. -/
theorem readQuoted_code {a b c d : Char} {code : Nat} (hcode : ofHex? [a, b, c, d] = some code)
    (hsmall : code < 0xD800) {rest text after : List Char}
    (hrest : readQuoted rest = some (text, after)) :
    readQuoted ('\\' :: 'u' :: a :: b :: c :: d :: rest) =
      some (Char.ofNat code :: text, after) := by
  have hchar : charOfCode? code = some (Char.ofNat code) := by
    rw [charOfCode?, if_pos (.inl hsmall)]
  by_cases hpair : ∃ e f g h more, rest = '\\' :: 'u' :: e :: f :: g :: h :: more
  · obtain ⟨e, f, g, h, more, rfl⟩ := hpair
    obtain ⟨low, hlow⟩ := exists_ofHex?_of_readQuoted hrest
    have hsingle : ¬ (0xD800 ≤ code ∧ code < 0xDC00 ∧ 0xDC00 ≤ low ∧ low < 0xE000) := by omega
    rw [readQuoted, hcode, hlow]
    simp [hsingle, hchar, hrest]
  · rw [readQuoted]
    · simp [hcode, hchar, hrest]
    · intro e f g h more heq
      exact hpair ⟨e, f, g, h, more, heq⟩

theorem readQuoted_escapeChar (c : Char) {rest text after : List Char}
    (hrest : readQuoted rest = some (text, after)) :
    readQuoted (escapeChar c ++ rest) = some (c :: text, after) := by
  rcases escapeChar_cases c with ⟨d, hd, hunescape, heq⟩ | ⟨hcontrol, heq⟩ |
    ⟨hquote, hslash, hprinted, heq⟩
  · rw [heq, List.cons_append, List.singleton_append, readQuoted]
    · simp [hunescape, hrest]
    · simp [hd]
    · simp [hd]
  · have hcode := ofHex?_hexDigit ⟨c.toNat, hcontrol⟩
    have hsmall : c.toNat < 0xD800 := by omega
    rw [heq]
    simpa using readQuoted_code hcode hsmall hrest
  · rw [heq, List.singleton_append, readQuoted]
    · simp [hprinted, hrest]
    · exact hquote
    all_goals simp [hslash]

/-- What stands between quotes is read back, up to the closing quote. -/
theorem readQuoted_flatMap_escapeChar (cs after : List Char) :
    readQuoted (cs.flatMap escapeChar ++ '"' :: after) = some (cs, after) := by
  induction cs with
  | nil => simp [readQuoted]
  | cons c cs ih =>
      rw [List.flatMap_cons, List.append_assoc]
      exact readQuoted_escapeChar c ih

/-- Two strings that begin the same text are the same. -/
theorem quote_append_inj {text other : String} {s t : List Char}
    (h : quote text ++ s = quote other ++ t) : text = other ∧ s = t := by
  simp only [quote, List.cons_append, List.append_assoc, List.nil_append, List.cons.injEq,
    true_and] at h
  have hread := congrArg readQuoted h
  rw [readQuoted_flatMap_escapeChar, readQuoted_flatMap_escapeChar, Option.some.injEq,
    Prod.mk.injEq] at hread
  exact ⟨String.toList_inj.1 hread.1, hread.2⟩

/-! ## Words -/

/-- The characters of values that are neither quoted nor bracketed. -/
def isWordChar (c : Char) : Bool := c.isAlphanum || c == '-' || c == '+' || c == '.'

/-- The text of a number or of `null`: a word that begins like no boolean. -/
structure IsNumberWord (text : List Char) : Prop where
  chars : ∀ c ∈ text, isWordChar c
  head : ∃ c rest, text = c :: rest ∧ c ≠ 't' ∧ c ≠ 'f'

theorem isWordChar_of_isDigit {c : Char} (h : c.isDigit) : isWordChar c := by
  simp [isWordChar, Char.isAlphanum, h]

theorem isNumberWord_null : IsNumberWord "null".toList :=
  ⟨List.all_eq_true.1 (by decide), 'n', ['u', 'l', 'l'], by decide⟩

/-- Digits in front of a word make a word. -/
theorem isNumberWord_of_isDigit {c : Char} {rest : List Char} (hc : c.isDigit)
    (hrest : ∀ d ∈ rest, isWordChar d) : IsNumberWord (c :: rest) := by
  refine ⟨List.forall_mem_cons.2 ⟨isWordChar_of_isDigit hc, hrest⟩, c, rest, rfl, ?_, ?_⟩
  · rintro rfl
    cases hc
  · rintro rfl
    cases hc

theorem IsNumberWord.neg {text : List Char} (h : IsNumberWord text) :
    IsNumberWord ('-' :: text) :=
  ⟨List.forall_mem_cons.2 ⟨rfl, h.chars⟩, '-', text, rfl, by decide, by decide⟩

/-- The digits of a natural number, of which there is at least one. -/
theorem exists_toString_eq_cons (n : Nat) :
    ∃ d ds, (toString n).toList = d :: ds ∧ d.isDigit ∧ ∀ c ∈ ds, c.isDigit := by
  rw [Nat.toString_eq_ofList_toDigits, String.toList_ofList]
  obtain ⟨d, ds, heq⟩ := List.exists_cons_of_ne_nil (@Nat.toDigits_ne_nil n 10)
  have hdigits : ∀ c ∈ Nat.toDigits 10 n, c.isDigit := fun c hc =>
    Nat.isDigit_of_mem_toDigits (by decide) (by decide) hc
  rw [heq, List.forall_mem_cons] at hdigits
  exact ⟨d, ds, heq, hdigits⟩

theorem isNumberWord_toString (n : Nat) : IsNumberWord (toString n).toList := by
  obtain ⟨d, ds, heq, hd, hds⟩ := exists_toString_eq_cons n
  rw [heq]
  exact isNumberWord_of_isDigit hd fun c hc => isWordChar_of_isDigit (hds c hc)

theorem isNumberWord_toString_int (n : Int) : IsNumberWord (toString n).toList := by
  cases n with
  | ofNat n => exact isNumberWord_toString n
  | negSucc n =>
      have htext : (toString (Int.negSucc n)).toList = '-' :: (toString (n + 1)).toList :=
        String.toList_append
      rw [htext]
      exact (isNumberWord_toString _).neg

end Value

namespace NumberLayout

open Value

section Digits

variable {d : Char} {ds : List Char} (hd : d.isDigit) (hds : ∀ c ∈ ds, c.isDigit)

include hd hds

theorem isNumberWord_writePositional (exponent : Int) :
    IsNumberWord (writePositional (d :: ds) exponent) := by
  have hzeros (n : Nat) : ∀ c ∈ List.replicate n '0', isWordChar c := by
    intro c hc
    rw [List.eq_of_mem_replicate hc]
    rfl
  have hdigits : ∀ c ∈ ds, isWordChar c := fun c hc => isWordChar_of_isDigit (hds c hc)
  unfold writePositional
  split
  · refine isNumberWord_of_isDigit rfl (List.forall_mem_cons.2 ⟨rfl, ?_⟩)
    refine List.forall_mem_append.2 ⟨hzeros _, List.forall_mem_cons.2 ⟨?_, hdigits⟩⟩
    exact isWordChar_of_isDigit hd
  · dsimp only
    rw [List.take_succ_cons, List.drop_succ_cons]
    refine isNumberWord_of_isDigit hd ?_
    refine List.forall_mem_append.2 ⟨List.forall_mem_append.2 ⟨?_, hzeros _⟩, ?_⟩
    · exact fun c hc => hdigits c (List.mem_of_mem_take hc)
    · refine List.forall_mem_cons.2 ⟨rfl, ?_⟩
      split
      · exact hzeros 1
      · exact fun c hc => hdigits c (List.mem_of_mem_drop hc)

theorem isNumberWord_writeScientific (exponent : Int) :
    IsNumberWord (writeScientific (d :: ds) exponent) := by
  have hdigits : ∀ c ∈ ds, isWordChar c := fun c hc => isWordChar_of_isDigit (hds c hc)
  unfold writeScientific
  dsimp only
  refine isNumberWord_of_isDigit hd (List.forall_mem_append.2 ⟨?_, ?_⟩)
  · split
    · exact nofun
    · exact List.forall_mem_cons.2 ⟨rfl, hdigits⟩
  · refine List.forall_mem_cons.2 ⟨rfl, List.forall_mem_cons.2 ⟨?_, ?_⟩⟩
    · split <;> rfl
    · exact (isNumberWord_toString _).chars

end Digits

theorem isNumberWord_write (x : Binary64) : IsNumberWord (data.write x) := by
  cases x with
  | nan | infinite negative => exact isNumberWord_null
  | finite negative mantissa exponent =>
      have hunsigned : IsNumberWord (if mantissa == 0 then ['0', '.', '0']
          else data.writePositive mantissa exponent) := by
        split
        · exact isNumberWord_of_isDigit rfl (List.all_eq_true.1 (by decide))
        · unfold writePositive
          obtain ⟨d, ds, heq, hd, hds⟩ :=
            exists_toString_eq_cons (Shortest.digits mantissa exponent).1
          dsimp only
          rw [heq]
          split
          · exact isNumberWord_writePositional hd hds _
          · exact isNumberWord_writeScientific hd hds _
      cases negative with
      | false => exact hunsigned
      | true => exact hunsigned.neg

end NumberLayout

namespace Value

/-! ## What a text tells of a value -/

mutual

/-- The value with `null` in place of its numbers. -/
@[simp] def skeleton : Value → Value
  | null | integer _ | float _ => null
  | boolean b => boolean b
  | string text => string text
  | array elements => array (skeletons elements)
  | object fields => object (skeletonFields fields)

@[simp] def skeletons : List Value → List Value
  | [] => []
  | value :: values => skeleton value :: skeletons values

@[simp] def skeletonFields : List (String × Value) → List (String × Value)
  | [] => []
  | (name, value) :: fields => (name, skeleton value) :: skeletonFields fields

end

def parts : Value → List Value
  | array elements => elements
  | object fields => fields.map Prod.snd
  | _ => []

theorem sizeOf_lt_of_mem_parts {value part : Value} (h : part ∈ value.parts) :
    sizeOf part < sizeOf value := by
  cases value with
  | array elements =>
      have hlt : sizeOf part < sizeOf elements := List.sizeOf_lt_of_mem h
      simp only [array.sizeOf_spec]
      omega
  | object fields =>
      obtain ⟨field, hfield, rfl⟩ := List.mem_map.1 h
      have hlt := List.sizeOf_lt_of_mem hfield
      have hsize : sizeOf field.2 < sizeOf field := by
        cases field
        simp only [Prod.mk.sizeOf_spec]
        omega
      simp only [object.sizeOf_spec]
      omega
  | _ => cases h

/-- A property of all values follows from its passing from parts to wholes. -/
theorem parts_induction {P : Value → Prop}
    (step : ∀ value, (∀ part ∈ value.parts, P part) → P value) (value : Value) : P value :=
  step value fun part _hpart => parts_induction step part
termination_by sizeOf value
decreasing_by exact sizeOf_lt_of_mem_parts _hpart

def opening : Value → Option Char
  | string _ => some '"'
  | array _ => some '['
  | object _ => some '\x7b'
  | _ => none

theorem isWordChar_of_opening {value : Value} {c : Char} (h : value.opening = some c) :
    isWordChar c = false := by
  cases value with
  | string | array | object =>
      obtain rfl := Option.some.inj h
      rfl
  | _ => cases h

/-- A value without an opening character is a boolean or has the text of a number. -/
theorem word_cases {value : Value} (h : value.opening = none) :
    value.compact = value.atom ∧
      ((∃ b, value = boolean b) ∨ value.skeleton = null ∧ IsNumberWord value.atom) := by
  cases value with
  | null => exact ⟨rfl, .inr ⟨rfl, isNumberWord_null⟩⟩
  | boolean b => exact ⟨rfl, .inl ⟨b, rfl⟩⟩
  | integer n => exact ⟨rfl, .inr ⟨rfl, isNumberWord_toString_int n⟩⟩
  | float x => exact ⟨rfl, .inr ⟨rfl, NumberLayout.isNumberWord_write x⟩⟩
  | string | array | object => cases h

theorem isWordChar_of_mem_atom {value : Value} (h : value.opening = none) :
    ∀ c ∈ value.atom, isWordChar c := by
  rcases (word_cases h).2 with ⟨b, rfl⟩ | ⟨-, hword⟩
  · cases b <;> exact List.all_eq_true.1 (by decide)
  · exact hword.chars

theorem exists_compact_eq_cons (value : Value) :
    ∃ c rest, value.compact = c :: rest ∧
      (value.opening = some c ∨ value.opening = none ∧ isWordChar c) := by
  cases hopening : value.opening with
  | none =>
      obtain ⟨heq, ⟨b, rfl⟩ | ⟨-, hword⟩⟩ := word_cases hopening
      · cases b <;> exact ⟨_, _, rfl, .inr ⟨rfl, rfl⟩⟩
      · obtain ⟨c, rest, htext, -⟩ := hword.head
        have hc := hword.chars c (by simp [htext])
        exact ⟨c, rest, heq.trans htext, .inr ⟨rfl, hc⟩⟩
  | some c =>
      cases value with
      | string text => exact ⟨_, _, rfl, .inl hopening.symm⟩
      | array elements => cases elements <;> exact ⟨_, _, rfl, .inl hopening.symm⟩
      | object fields => cases fields <;> exact ⟨_, _, rfl, .inl hopening.symm⟩
      | _ => cases hopening

theorem opening_eq_of_compact_append {v w : Value} {s t : List Char}
    (h : v.compact ++ s = w.compact ++ t) : v.opening = w.opening := by
  obtain ⟨c, cs, hv, hc⟩ := exists_compact_eq_cons v
  obtain ⟨d, ds, hw, hd⟩ := exists_compact_eq_cons w
  rw [hv, hw] at h
  obtain ⟨rfl, -⟩ := List.cons.inj h
  rcases hc with hc | ⟨hc, hword⟩ <;> rcases hd with hd | ⟨hd, hword'⟩
  · rw [hc, hd]
  · rw [isWordChar_of_opening hc] at hword'
    cases hword'
  · rw [isWordChar_of_opening hd] at hword
    cases hword
  · rw [hc, hd]

theorem not_isNumberWord_boolean (b : Bool) : ¬ IsNumberWord (boolean b).atom := by
  rintro ⟨-, c, rest, htext, ht, hf⟩
  cases b with
  | false => exact hf (List.cons.inj htext).1.symm
  | true => exact ht (List.cons.inj htext).1.symm

/-- Words that are the same text have the same skeleton. -/
theorem skeleton_eq_of_atom_eq {v w : Value} (hv : v.opening = none) (hw : w.opening = none)
    (h : v.atom = w.atom) : v.skeleton = w.skeleton := by
  rcases (word_cases hv).2 with ⟨b, rfl⟩ | ⟨hv, hvword⟩ <;>
    rcases (word_cases hw).2 with ⟨b', rfl⟩ | ⟨hw, hwword⟩
  · cases b <;> cases b' <;> first | rfl | cases h
  · exact absurd (h ▸ hwword) (not_isNumberWord_boolean b)
  · exact absurd (h ▸ hvword) (not_isNumberWord_boolean b')
  · rw [hv, hw]

/-- No value begins with a closing bracket, so an empty array is not taken for another one. -/
theorem compact_append_ne (v : Value) (s t : List Char) : v.compact ++ s ≠ ']' :: t := by
  obtain ⟨c, rest, heq, hc⟩ := exists_compact_eq_cons v
  rw [heq]
  intro h
  obtain ⟨rfl, -⟩ := List.cons.inj h
  rcases hc with hopening | ⟨-, hword⟩
  · cases v <;> cases hopening
  · cases hword

/-- No letter, digit or sign comes next, so that a word ends here. -/
def EndsWord (rest : List Char) : Prop := ∀ c ∈ rest.head?, isWordChar c = false

/-- A value is known, up to its numbers, by any text that its text begins. -/
def IsReadable (v : Value) : Prop :=
  ∀ (w : Value) (s t : List Char), EndsWord s → EndsWord t → v.compact ++ s = w.compact ++ t →
    v.skeleton = w.skeleton ∧ s = t

theorem endsWord_compactElements (values : List Value) (s : List Char) :
    EndsWord (compactElements values ++ s) := by
  cases values <;> simp [EndsWord, compactElements] <;> decide

theorem endsWord_compactFields (fields : List (String × Value)) (s : List Char) :
    EndsWord (compactFields fields ++ s) := by
  cases fields <;> simp [EndsWord, compactFields] <;> decide

theorem skeletons_eq_of_compactElements {vs ws : List Value} (hvs : ∀ v ∈ vs, IsReadable v)
    {s t : List Char} (h : compactElements vs ++ s = compactElements ws ++ t) :
    skeletons vs = skeletons ws ∧ s = t := by
  induction vs generalizing ws with
  | nil =>
      cases ws with
      | nil => exact ⟨rfl, by simpa [compactElements] using h⟩
      | cons w ws => simp [compactElements] at h
  | cons v vs ih =>
      cases ws with
      | nil => simp [compactElements] at h
      | cons w ws =>
          rw [List.forall_mem_cons] at hvs
          simp only [compactElements, List.cons_append, List.append_assoc, List.cons.injEq,
            true_and] at h
          obtain ⟨hv, hrest⟩ := hvs.1 w _ _ (endsWord_compactElements vs s)
            (endsWord_compactElements ws t) h
          obtain ⟨hothers, hend⟩ := ih hvs.2 hrest
          exact ⟨by rw [skeletons, skeletons, hv, hothers], hend⟩

theorem skeletonFields_eq_of_compactFields {fs gs : List (String × Value)}
    (hfs : ∀ v ∈ fs.map Prod.snd, IsReadable v) {s t : List Char}
    (h : compactFields fs ++ s = compactFields gs ++ t) :
    skeletonFields fs = skeletonFields gs ∧ s = t := by
  induction fs generalizing gs with
  | nil =>
      cases gs with
      | nil => exact ⟨rfl, by simpa [compactFields] using h⟩
      | cons g gs => simp [compactFields] at h
  | cons f fs ih =>
      cases gs with
      | nil => simp [compactFields] at h
      | cons g gs =>
          obtain ⟨name, v⟩ := f
          obtain ⟨other, w⟩ := g
          rw [List.map_cons, List.forall_mem_cons] at hfs
          simp only [compactFields, List.cons_append, List.append_assoc, List.cons.injEq,
            true_and] at h
          obtain ⟨rfl, hvalue⟩ := quote_append_inj h
          obtain ⟨hv, hrest⟩ := hfs.1 w _ _ (endsWord_compactFields fs s)
            (endsWord_compactFields gs t) (List.cons.inj hvalue).2
          obtain ⟨hothers, hend⟩ := ih hfs.2 hrest
          exact ⟨by rw [skeletonFields, skeletonFields, hv, hothers], hend⟩

theorem isReadable_of_opening {v : Value} (hv : v.opening = none) : IsReadable v := by
  intro w s t hs ht h
  have hw : w.opening = none := by rw [← opening_eq_of_compact_append h, hv]
  rw [(word_cases hv).1, (word_cases hw).1] at h
  have hword := isWordChar_of_mem_atom hv
  have hword' := isWordChar_of_mem_atom hw
  have htext : v.atom = w.atom := by
    rw [← Token.takeWhile_append_of_stop hword hs, h, Token.takeWhile_append_of_stop hword' ht]
  refine ⟨skeleton_eq_of_atom_eq hv hw htext, ?_⟩
  rw [htext] at h
  exact List.append_cancel_left h

theorem isReadable_string (text : String) : IsReadable (string text) := by
  intro w s t _ _ h
  have hopening := opening_eq_of_compact_append h
  cases w with
  | string other =>
      obtain ⟨rfl, hend⟩ := quote_append_inj h
      exact ⟨rfl, hend⟩
  | _ => cases hopening

/-- Arrays that begin the same text are both empty or both not. -/
theorem compactElements_eq_of_array {vs ws : List Value} {s t : List Char}
    (h : (array vs).compact ++ s = (array ws).compact ++ t) :
    compactElements vs ++ s = compactElements ws ++ t := by
  cases vs with
  | nil =>
      cases ws with
      | nil => simpa [compact, compactElements] using h
      | cons w ws =>
          simp only [compact, List.cons_append, List.append_assoc, List.cons.injEq, true_and] at h
          exact absurd h.symm (compact_append_ne w _ _)
  | cons v vs =>
      cases ws with
      | nil =>
          simp only [compact, List.cons_append, List.append_assoc, List.cons.injEq, true_and] at h
          exact absurd h (compact_append_ne v _ _)
      | cons w ws => simpa [compact, compactElements] using h

theorem isReadable_array {vs : List Value} (hvs : ∀ v ∈ vs, IsReadable v) :
    IsReadable (array vs) := by
  intro w s t _ _ h
  have hopening := opening_eq_of_compact_append h
  cases w with
  | array ws =>
      obtain ⟨helements, hend⟩ :=
        skeletons_eq_of_compactElements hvs (compactElements_eq_of_array h)
      exact ⟨by rw [skeleton, skeleton, helements], hend⟩
  | _ => cases hopening

theorem isReadable_object {fs : List (String × Value)}
    (hfs : ∀ v ∈ fs.map Prod.snd, IsReadable v) : IsReadable (object fs) := by
  intro w s t _ _ h
  have hopening := opening_eq_of_compact_append h
  cases w with
  | object gs =>
      -- a field begins with a quote, so an empty object is not taken for another one
      have htext : compactFields fs ++ s = compactFields gs ++ t := by
        cases fs <;> cases gs <;> simp [compact, compactFields, quote] at h ⊢ <;> exact h
      obtain ⟨hfields, hend⟩ := skeletonFields_eq_of_compactFields hfs htext
      exact ⟨by rw [skeleton, skeleton, hfields], hend⟩
  | _ => cases hopening

theorem isReadable_of_parts (v : Value) (hparts : ∀ part ∈ v.parts, IsReadable part) :
    IsReadable v := by
  cases v with
  | null | boolean _ | integer _ | float _ => exact isReadable_of_opening rfl
  | string text => exact isReadable_string text
  | array elements => exact isReadable_array hparts
  | object fields => exact isReadable_object hparts

theorem isReadable (v : Value) : IsReadable v :=
  parts_induction isReadable_of_parts v

/-- Values with the same compact text are equal up to their numbers. -/
theorem skeleton_eq_of_toJson_eq {v w : Value} (h : v.toJson = w.toJson) :
    v.skeleton = w.skeleton := by
  have htext : v.compact ++ [] = w.compact ++ [] := by
    rw [List.append_nil, List.append_nil]
    exact String.ofList_injective h
  exact (isReadable v w [] [] nofun nofun htext).1

end Value

end LijsCompiler
