import LijsCompiler.Options.Decode
import LijsCompiler.Proofs.Registry.Stems
import LijsCompiler.Proofs.Value.Fields

/-!
# Options from data

`Options.IsGiven` says which data stands for which options, whatever the order of its fields.  It is
what decoding accepts (`ofJson_eq_ok_iff`), and it holds of the data that options are written as
(`isGiven_toValue`).
-/

namespace LijsCompiler

open Value

/-! ## Data that stands for options -/

def IsStem (v : Value) (stem : Stem) : Prop :=
  ∃ text, v = .string text ∧ Stem.ofString text = .ok stem

def IsLength (v : Value) (length : NameLength) : Prop :=
  ∃ n : Nat, v = .integer n ∧ 4 ≤ n ∧ n ≤ 32 ∧ length.value = n

/-- No seed is given as null. -/
def IsSeed (v : Value) : Option UInt64 → Prop
  | none => v = .null
  | some n => v = .integer n.toNat

/-- Data that stands for a strategy.  The fields of the other strategy may have any value. -/
def Strategy.IsGiven (v : Value) : Strategy → Prop
  | .counter stem =>
    ∃ fields, v.fields? ["strategy", "prefix"] = some fields ∧
      last? "strategy" fields = some (.string "counter") ∧
      Given IsStem Stem.standard (last? "prefix" fields) stem
  | .random length seed =>
    ∃ fields, v.fields? ["strategy", "length", "seed"] = some fields ∧
      last? "strategy" fields = some (.string "random") ∧
      Given IsLength NameLength.standard (last? "length" fields) length ∧
      Given IsSeed none (last? "seed" fields) seed

def Options.IsGiven (v : Value) (o : Options) : Prop :=
  ∃ fields, v.fields? ["require_callee", "exports_target", "temporaries"] = some fields ∧
    (∀ field ∈ fields, field.1 ∈ ["require_callee", "exports_target", "temporaries"]) ∧
    Given (fun v text => v = .string text) "require" (last? "require_callee" fields)
      o.requireCallee ∧
    Given (fun v text => v = .string text) "module.exports" (last? "exports_target" fields)
      o.exportsTarget ∧
    Given (fun v strategy => strategy.IsGiven v) Strategy.standard (last? "temporaries" fields)
      o.temporaries

/-! ## Values of one field -/

theorem NameLength.ofNat_eq_ok_iff {n : Nat} {length : NameLength} :
    ofNat n = .ok length ↔ length.value = n := by
  unfold ofNat
  constructor
  · intro h
    split at h
    · cases h
      rfl
    · cases h
  · rintro rfl
    exact dif_pos ⟨length.least_le, length.le_greatest⟩

namespace Dialect

section

variable {ε ε' α β : Type} {x : Except ε α}

theorem bind_eq_ok_iff {f : α → Except ε β} {b : β} :
    (x >>= f) = .ok b ↔ ∃ a, x = .ok a ∧ f a = .ok b := by
  cases x <;> simp [bind, Except.bind]

theorem exists_map_eq_ok_iff {f : α → β} {P : β → Prop} :
    (∃ b, f <$> x = .ok b ∧ P b) ↔ ∃ a, x = .ok a ∧ P (f a) := by
  cases x <;> simp [Functor.map, Except.map]

theorem throw_if_eq_ok_iff {p : Prop} [Decidable p] {e : ε} {a b : α} :
    (if p then (do throw e; pure a) else pure a : Except ε α) = .ok b ↔ ¬ p ∧ a = b := by
  by_cases h : p <;> simp [h, bind, Except.bind, throw, throwThe, MonadExceptOf.throw, pure,
    Except.pure]

theorem mapError_eq_ok_iff {f : ε → ε'} {a : α} : x.mapError f = .ok a ↔ x = .ok a := by
  cases x with
  | error e => exact ⟨nofun, nofun⟩
  | ok b => exact ⟨fun h => congrArg _ (Except.ok.inj h), fun h => congrArg _ (Except.ok.inj h)⟩

end

variable {d : Dialect} {v : Value}

theorem decodeString_eq_ok_iff {text : String} :
    d.decodeString v = .ok text ↔ v = .string text := by
  cases v <;> simp [decodeString, mismatch]

theorem decodeUnsigned_eq_ok_iff {bits n : Nat} {type : String} :
    d.decodeUnsigned bits type v = .ok n ↔ v = .integer n ∧ n < Nat.pow 2 bits := by
  cases v with
  | integer i =>
      rw [decodeUnsigned, Value.integer.injEq]
      split
      · rename_i h
        rw [Except.ok.injEq]
        constructor
        · rintro rfl
          exact ⟨(Int.toNat_of_nonneg h.1).symm, h.2⟩
        · rintro ⟨rfl, -⟩
          rfl
      · rename_i h
        constructor
        · rintro ⟨⟩
        · rintro ⟨rfl, hn⟩
          exact absurd ⟨Int.natCast_nonneg n, hn⟩ h
  | _ => simp [decodeUnsigned, mismatch]

theorem decodeStem_eq_ok_iff {stem : Stem} : d.decodeStem v = .ok stem ↔ IsStem v stem := by
  simp only [decodeStem, bind_eq_ok_iff, decodeString_eq_ok_iff, mapError_eq_ok_iff, IsStem]

theorem decodeLength_eq_ok_iff {length : NameLength} :
    d.decodeLength v = .ok length ↔ IsLength v length := by
  simp only [decodeLength, bind_eq_ok_iff, decodeUnsigned_eq_ok_iff, mapError_eq_ok_iff,
    NameLength.ofNat_eq_ok_iff]
  constructor
  · rintro ⟨n, ⟨rfl, -⟩, rfl⟩
    exact ⟨_, rfl, length.least_le, length.le_greatest, rfl⟩
  · rintro ⟨n, rfl, -, hn, hlength⟩
    exact ⟨n, ⟨rfl, Nat.lt_of_le_of_lt hn (by decide)⟩, hlength⟩

theorem decodeSeed_of_ne_null (h : v ≠ .null) :
    d.decodeSeed v = d.decodeUnsigned 64 "u64" v >>= fun n => .ok (some n.toUInt64) := by
  cases v with
  | null => exact absurd rfl h
  | _ => rfl

theorem decodeSeed_eq_ok_iff {seed : Option UInt64} :
    d.decodeSeed v = .ok seed ↔ IsSeed v seed := by
  by_cases hnull : v = .null
  · subst hnull
    cases seed <;> simp [decodeSeed, IsSeed]
  · simp only [decodeSeed_of_ne_null hnull, bind_eq_ok_iff, decodeUnsigned_eq_ok_iff]
    constructor
    · rintro ⟨n, ⟨rfl, hn⟩, ⟨⟩⟩
      rw [IsSeed, UInt64.toNat_ofNat_of_lt' hn]
    · cases seed with
      | none => exact fun h => absurd h hnull
      | some n =>
          rintro rfl
          exact ⟨n.toNat, ⟨rfl, n.toNat_lt⟩, by simp⟩

def StrategyTag.word : StrategyTag → String
  | counter => "counter"
  | random => "random"

theorem decodeTag_eq_ok_iff {tag : StrategyTag} :
    d.decodeTag v = .ok tag ↔ v = .string tag.word := by
  unfold decodeTag
  split <;> cases tag <;> simp_all [StrategyTag.word, mismatch]

/-! ## Strategies -/

theorem setStrategyField_counter (stem : Stem) (name : String) (value : Value) :
    d.setStrategyField (.counter stem) name value =
      if name = "prefix" then .counter <$> d.decodeStem value else .ok (.counter stem) := by
  unfold setStrategyField
  split <;> simp_all

theorem setStrategyField_random (length : NameLength) (seed : Option UInt64) (name : String)
    (value : Value) :
    d.setStrategyField (.random length seed) name value =
      if name = "length" then (.random · seed) <$> d.decodeLength value
      else if name = "seed" then .random length <$> d.decodeSeed value
      else .ok (.random length seed) := by
  unfold setStrategyField
  split <;> simp_all

/-- The strategy that one is turned into by the values that are found by name. -/
def TakesFields (d : Dialect) (look : String → Option Value) : Strategy → Strategy → Prop
  | .counter stem, t =>
    ∃ stem', t = .counter stem' ∧
      Given (fun v stem => d.decodeStem v = .ok stem) stem (look "prefix") stem'
  | .random length seed, t =>
    ∃ length' seed', t = .random length' seed' ∧
      Given (fun v length => d.decodeLength v = .ok length) length (look "length") length' ∧
      Given (fun v seed => d.decodeSeed v = .ok seed) seed (look "seed") seed'

section

variable {look : String → Option Value} {t : Strategy}

theorem takesFields_counter {stem : Stem} :
    d.TakesFields look (.counter stem) t ↔ ∃ stem', t = .counter stem' ∧
      Given (fun v stem => d.decodeStem v = .ok stem) stem (look "prefix") stem' := .rfl

theorem takesFields_random {length : NameLength} {seed : Option UInt64} :
    d.TakesFields look (.random length seed) t ↔ ∃ length' seed', t = .random length' seed' ∧
      Given (fun v length => d.decodeLength v = .ok length) length (look "length") length' ∧
      Given (fun v seed => d.decodeSeed v = .ok seed) seed (look "seed") seed' := .rfl

theorem takesFields_cons {name : String} (value : Value) {s : Strategy} (hnone : look name = none) :
    d.TakesFields (fun other => if other = name then some value else look other) s t ↔
      ∃ next, d.setStrategyField s name value = .ok next ∧ d.TakesFields look next t := by
  cases s with
  | counter stem =>
      rw [setStrategyField_counter]
      by_cases hname : name = "prefix"
      · subst hname
        rw [if_pos rfl, exists_map_eq_ok_iff]
        simp [takesFields_counter, hnone, and_comm]
      · simp [takesFields_counter, hname, Ne.symm hname]
  | random length seed =>
      rw [setStrategyField_random]
      by_cases hlength : name = "length"
      · subst hlength
        rw [if_pos rfl, exists_map_eq_ok_iff]
        simp only [takesFields_random, hnone, String.reduceEq, if_true, if_false, given_none,
          given_some]
        constructor
        · rintro ⟨length', seed', rfl, hlength, hseed⟩
          exact ⟨length', hlength, length', seed', rfl, rfl, hseed⟩
        · rintro ⟨_, hlength, length', seed', rfl, rfl, hseed⟩
          exact ⟨length', seed', rfl, hlength, hseed⟩
      · by_cases hseed : name = "seed"
        · subst hseed
          rw [if_neg hlength, if_pos rfl, exists_map_eq_ok_iff]
          simp only [takesFields_random, hnone, String.reduceEq, if_true, if_false, given_none,
            given_some]
          constructor
          · rintro ⟨length', seed', rfl, hlength, hseed⟩
            exact ⟨seed', hseed, length', seed', rfl, hlength, rfl⟩
          · rintro ⟨_, hseed, length', seed', rfl, hlength, rfl⟩
            exact ⟨length', seed', rfl, hlength, hseed⟩
        · simp [takesFields_random, hlength, hseed, Ne.symm hlength, Ne.symm hseed]

end

theorem setStrategyFields_eq_ok_iff {fields : List (String × Value)} (hdistinct : Distinct fields)
    {s t : Strategy} :
    d.setStrategyFields s fields = .ok t ↔ d.TakesFields (fun name => fields.lookup name) s t := by
  refine foldlM_eq_ok_iff ?_ (fun look name value s t => takesFields_cons value) hdistinct
  intro s t
  cases s <;> simp [TakesFields]

/-- Only the fields of strategies matter. -/
theorem TakesFields.congr {look others : String → Option Value} {s t : Strategy}
    (hlook : ∀ name, name ≠ "strategy" → look name = others name) :
    d.TakesFields look s t ↔ d.TakesFields others s t := by
  cases s with
  | counter stem => rw [takesFields_counter, takesFields_counter, hlook _ (by decide)]
  | random length seed =>
      rw [takesFields_random, takesFields_random, hlook _ (by decide), hlook _ (by decide)]

/-- In a list, all that follows the word of a strategy is fields of it. -/
theorem filter_cons_zip_strategyFields (s : Strategy) (value : Value) (values : List Value) :
    (("strategy", value) :: (strategyFields s).zip values).filter
        (fun field => field.1 != "strategy") = (strategyFields s).zip values := by
  rw [List.filter_cons_of_neg (by simp), List.filter_eq_self]
  intro field hfield
  have hname := (List.of_mem_zip hfield).1
  cases s with
  | counter _ =>
      obtain hname : field.1 = "prefix" := by simpa [strategyFields] using hname
      simp [hname]
  | random _ _ =>
      obtain hname | hname : field.1 = "length" ∨ field.1 = "seed" := by
        simpa [strategyFields] using hname
      · simp [hname]
      · simp [hname]

/-- A strategy is read from a record whose names depend on the word for it. -/
theorem decodeStrategy_eq_ok_iff {s : Strategy} :
    d.decodeStrategy v = .ok s ↔
      ∃ tag : StrategyTag, ∃ fields,
        v.fields? ("strategy" :: strategyFields (plainStrategy tag)) = some fields ∧
        fields.lookup "strategy" = some (.string tag.word) ∧
        d.setStrategyFields (plainStrategy tag)
          (fields.filter fun (name, _) => name != "strategy") = .ok s := by
  cases v with
  | object fields =>
      simp only [decodeStrategy, fields?, Option.some.injEq, exists_eq_left']
      cases hlook : fields.lookup "strategy" with
      | none => simp
      | some value => simp [bind_eq_ok_iff, decodeTag_eq_ok_iff]
  | array values =>
      cases values with
      | nil => simp [decodeStrategy, fields?]
      | cons value values =>
          simp only [decodeStrategy, fields?_array_eq_some_iff, bind_eq_ok_iff, decodeTag_eq_ok_iff,
            throw_if_eq_ok_iff, Nat.not_lt]
          refine exists_congr fun tag => ?_
          constructor
          · rintro ⟨rfl, _, hset, hlength, rfl⟩
            refine ⟨_, ⟨Nat.succ_le_succ hlength, rfl⟩, rfl, ?_⟩
            rwa [List.zip_cons_cons, filter_cons_zip_strategyFields]
          · rintro ⟨_, ⟨hlength, rfl⟩, hvalue, hset⟩
            rw [List.zip_cons_cons, filter_cons_zip_strategyFields] at hset
            exact ⟨Option.some.inj hvalue, _, hset, Nat.le_of_succ_le_succ hlength, rfl⟩
  | _ => simp [decodeStrategy, fields?, mismatch]

/-! ## Options -/

theorem setOption_eq_ite (o : Options) (name : String) (value : Value) :
    d.setOption o name value =
      if name = "require_callee" then
        (fun text => { o with requireCallee := text }) <$> d.decodeString value
      else if name = "exports_target" then
        (fun text => { o with exportsTarget := text }) <$> d.decodeString value
      else if name = "temporaries" then
        (fun strategy => { o with temporaries := strategy }) <$> d.decodeStrategy value
      else .error (.unknownField name optionFields) := by
  unfold setOption
  split <;> simp_all

def TakesOptions (d : Dialect) (look : String → Option Value) (o t : Options) : Prop :=
  (∀ name, look name ≠ none → name ∈ optionFields) ∧
    Given (fun v text => d.decodeString v = .ok text) o.requireCallee (look "require_callee")
      t.requireCallee ∧
    Given (fun v text => d.decodeString v = .ok text) o.exportsTarget (look "exports_target")
      t.exportsTarget ∧
    Given (fun v strategy => d.decodeStrategy v = .ok strategy) o.temporaries (look "temporaries")
      t.temporaries

theorem forall_known_cons {look : String → Option Value} {name : String} {value : Value}
    {names : List String} (hnone : look name = none) :
    (∀ other, (if other = name then some value else look other) ≠ none → other ∈ names) ↔
      name ∈ names ∧ ∀ other, look other ≠ none → other ∈ names := by
  constructor
  · intro h
    refine ⟨h name (by simp), fun other hother => h other ?_⟩
    have hne : other ≠ name := by
      rintro rfl
      exact hother hnone
    rwa [if_neg hne]
  · rintro ⟨hname, h⟩ other hother
    by_cases hsame : other = name
    · exact hsame ▸ hname
    · rw [if_neg hsame] at hother
      exact h other hother

theorem takesOptions_cons {look : String → Option Value} {name : String} (value : Value)
    {o t : Options} (hnone : look name = none) :
    d.TakesOptions (fun other => if other = name then some value else look other) o t ↔
      ∃ next, d.setOption o name value = .ok next ∧ d.TakesOptions look next t := by
  unfold TakesOptions
  rw [setOption_eq_ite, forall_known_cons hnone]
  by_cases hcallee : name = "require_callee"
  · subst hcallee
    rw [if_pos rfl, exists_map_eq_ok_iff]
    simp only [hnone, String.reduceEq, if_true, if_false, given_none, given_some]
    constructor
    · rintro ⟨⟨-, hknown⟩, hcallee, hothers⟩
      exact ⟨_, hcallee, hknown, rfl, hothers⟩
    · rintro ⟨_, hcallee, hknown, rfl, hothers⟩
      exact ⟨⟨by decide, hknown⟩, hcallee, hothers⟩
  by_cases htarget : name = "exports_target"
  · subst htarget
    rw [if_neg hcallee, if_pos rfl, exists_map_eq_ok_iff]
    simp only [hnone, String.reduceEq, if_true, if_false, given_none, given_some]
    constructor
    · rintro ⟨⟨-, hknown⟩, hcallee, htarget, htemporaries⟩
      exact ⟨_, htarget, hknown, hcallee, rfl, htemporaries⟩
    · rintro ⟨_, htarget, hknown, hcallee, rfl, htemporaries⟩
      exact ⟨⟨by decide, hknown⟩, hcallee, htarget, htemporaries⟩
  by_cases htemporaries : name = "temporaries"
  · subst htemporaries
    rw [if_neg hcallee, if_neg htarget, if_pos rfl, exists_map_eq_ok_iff]
    simp only [hnone, String.reduceEq, if_true, if_false, given_none, given_some]
    constructor
    · rintro ⟨⟨-, hknown⟩, hcallee, htarget, htemporaries⟩
      exact ⟨_, htemporaries, hknown, hcallee, htarget, rfl⟩
    · rintro ⟨_, htemporaries, hknown, hcallee, htarget, rfl⟩
      exact ⟨⟨by decide, hknown⟩, hcallee, htarget, htemporaries⟩
  · simp [hcallee, htarget, htemporaries, optionFields]

theorem setOptions_eq_ok_iff {fields : List (String × Value)} (hdistinct : Distinct fields)
    {o t : Options} :
    d.setOptions o fields = .ok t ↔ d.TakesOptions (fun name => fields.lookup name) o t := by
  refine foldlM_eq_ok_iff ?_ (fun look name value o t => takesOptions_cons value) hdistinct
  intro o t
  constructor
  · rintro ⟨-, hcallee, htarget, htemporaries⟩
    cases o
    cases t
    simp_all
  · rintro rfl
    exact ⟨by simp, rfl, rfl, rfl⟩

theorem decodeOptions_eq_ok_iff {o : Options} :
    json.decodeOptions v = .ok o ↔
      ∃ fields, v.fields? optionFields = some fields ∧ json.setOptions {} fields = .ok o := by
  cases v with
  | object fields => simp [decodeOptions, fields?]
  | array values =>
      have hexcess : ¬ (json.refusesExcess = true ∧ optionFields.length < values.length) ↔
          values.length ≤ optionFields.length := by simp [json]
      simp only [decodeOptions, fields?_array_eq_some_iff, bind_eq_ok_iff, throw_if_eq_ok_iff,
        hexcess]
      constructor
      · rintro ⟨_, hset, hlength, rfl⟩
        exact ⟨_, ⟨hlength, rfl⟩, hset⟩
      · rintro ⟨_, ⟨hlength, rfl⟩, hset⟩
        exact ⟨_, hset, hlength, rfl⟩
  | _ => simp [decodeOptions, fields?, mismatch]

end Dialect

/-! ## What is accepted -/

theorem Value.sorted_eq_string_iff {v : Value} {text : String} :
    v.sorted = .string text ↔ v = .string text := by
  cases v <;> simp [sorted]

theorem Value.sorted_eq_integer_iff {v : Value} {n : Int} :
    v.sorted = .integer n ↔ v = .integer n := by
  cases v <;> simp [sorted]

theorem isStem_sorted_iff {v : Value} {stem : Stem} : IsStem v.sorted stem ↔ IsStem v stem := by
  simp only [IsStem, Value.sorted_eq_string_iff]

theorem isLength_sorted_iff {v : Value} {length : NameLength} :
    IsLength v.sorted length ↔ IsLength v length := by
  simp only [IsLength, Value.sorted_eq_integer_iff]

theorem isSeed_sorted_iff {v : Value} {seed : Option UInt64} :
    IsSeed v.sorted seed ↔ IsSeed v seed := by
  cases seed with
  | none => cases v <;> simp [IsSeed, sorted]
  | some n => exact Value.sorted_eq_integer_iff

theorem Value.given_map_sorted_iff {β : Type} {P Q : Value → β → Prop}
    (h : ∀ v b, P v.sorted b ↔ Q v b) {default b : β} {value : Option Value} :
    Given P default (value.map sorted) b ↔ Given Q default value b := by
  cases value with
  | none => exact .rfl
  | some v => exact h v b

theorem map_sorted_eq_some_string_iff {value : Option Value} {text : String} :
    value.map sorted = some (.string text) ↔ value = some (.string text) := by
  rw [Option.map_eq_some_iff]
  simp [Value.sorted_eq_string_iff]

theorem Dialect.decodeStrategy_sorted_eq_ok_iff {d : Dialect} {v : Value} {s : Strategy} :
    d.decodeStrategy v.sorted = .ok s ↔
      ∃ tag : StrategyTag, ∃ fields,
        v.fields? ("strategy" :: strategyFields (plainStrategy tag)) = some fields ∧
        last? "strategy" fields = some (.string tag.word) ∧
        d.TakesFields (fun name => (last? name fields).map sorted) (plainStrategy tag) s := by
  rw [decodeStrategy_eq_ok_iff]
  refine exists_congr fun tag => exists_fields?_sorted_iff (by cases tag <;> decide) ?_
  intro found fields hdistinct hlook
  rw [hlook, map_sorted_eq_some_string_iff, setStrategyFields_eq_ok_iff (hdistinct.filter _)]
  refine and_congr_right fun _ => TakesFields.congr fun name hname => ?_
  rw [lookup_filter_ne hname, hlook]

/-- Decoding accepts exactly the data that stands for a strategy. -/
theorem Strategy.decodeStrategy_sorted_iff {d : Dialect} {v : Value} {s : Strategy} :
    d.decodeStrategy v.sorted = .ok s ↔ s.IsGiven v := by
  have hstem : ∀ v stem, d.decodeStem (sorted v) = .ok stem ↔ IsStem v stem :=
    fun v stem => Dialect.decodeStem_eq_ok_iff.trans isStem_sorted_iff
  have hlength : ∀ v length, d.decodeLength (sorted v) = .ok length ↔ IsLength v length :=
    fun v length => Dialect.decodeLength_eq_ok_iff.trans isLength_sorted_iff
  have hseed : ∀ v seed, d.decodeSeed (sorted v) = .ok seed ↔ IsSeed v seed :=
    fun v seed => Dialect.decodeSeed_eq_ok_iff.trans isSeed_sorted_iff
  rw [Dialect.decodeStrategy_sorted_eq_ok_iff]
  constructor
  · rintro ⟨tag, fields, hfields, htag, htakes⟩
    cases tag with
    | counter =>
        obtain ⟨stem, rfl, hgiven⟩ := htakes
        exact ⟨fields, hfields, htag, (given_map_sorted_iff hstem).1 hgiven⟩
    | random =>
        obtain ⟨length, seed, rfl, hgiven, hgiven'⟩ := htakes
        exact ⟨fields, hfields, htag, (given_map_sorted_iff hlength).1 hgiven,
          (given_map_sorted_iff hseed).1 hgiven'⟩
  · intro h
    cases s with
    | counter stem =>
        obtain ⟨fields, hfields, htag, hgiven⟩ := h
        exact ⟨.counter, fields, hfields, htag, stem, rfl, (given_map_sorted_iff hstem).2 hgiven⟩
    | random length seed =>
        obtain ⟨fields, hfields, htag, hgiven, hgiven'⟩ := h
        exact ⟨.random, fields, hfields, htag, length, seed, rfl,
          (given_map_sorted_iff hlength).2 hgiven, (given_map_sorted_iff hseed).2 hgiven'⟩

theorem forall_last?_ne_none_iff {fields : List (String × Value)} {names : List String} :
    (∀ name, (last? name fields).map sorted ≠ none → name ∈ names) ↔
      ∀ field ∈ fields, field.1 ∈ names := by
  simp only [ne_eq, Option.map_eq_none_iff, last?_eq_none_iff]
  constructor
  · intro h field hfield
    exact h field.1 fun hnone => hnone field hfield rfl
  · intro h name hname
    refine Decidable.byContradiction fun hnot => hname ?_
    rintro field hfield rfl
    exact hnot (h field hfield)

/-- Decoding accepts exactly the data that stands for options. -/
theorem Options.ofJson_eq_ok_iff {v : Value} {o : Options} : ofJson v = .ok o ↔ o.IsGiven v := by
  have hstring : ∀ v text, Dialect.json.decodeString (sorted v) = .ok text ↔ v = .string text :=
    fun v text => Dialect.decodeString_eq_ok_iff.trans Value.sorted_eq_string_iff
  have hstrategy : ∀ v s, Dialect.json.decodeStrategy (sorted v) = .ok s ↔ s.IsGiven v :=
    fun v s => Strategy.decodeStrategy_sorted_iff
  unfold ofJson
  rw [Dialect.decodeOptions_eq_ok_iff]
  refine exists_fields?_sorted_iff (by decide) ?_
  intro found fields hdistinct hlook
  rw [Dialect.setOptions_eq_ok_iff hdistinct]
  simp only [hlook]
  unfold Dialect.TakesOptions
  rw [forall_last?_ne_none_iff, given_map_sorted_iff hstring, given_map_sorted_iff hstring,
    given_map_sorted_iff hstrategy]
  exact .rfl

/-! ## What is written -/

theorem Strategy.isGiven_toValue (s : Strategy) : s.IsGiven s.toValue := by
  cases s with
  | counter stem => exact ⟨_, rfl, rfl, _, rfl, Stem.ofString_eq_ok_iff.2 rfl⟩
  | random length seed =>
      have hlength : IsLength (.integer length.value) length :=
        ⟨_, rfl, length.least_le, length.le_greatest, rfl⟩
      exact ⟨_, rfl, rfl, hlength, by cases seed <;> rfl⟩

theorem Options.isGiven_toValue (o : Options) : o.IsGiven o.toValue :=
  ⟨_, rfl, by simp, rfl, rfl, o.temporaries.isGiven_toValue⟩

/-- Options are read back from the data that they are written as.  What is accepted as options has a
stem that passes its check or a length from 4 to 32, and is read back as well.  The data that is
accepted is an object with no other fields than those of options, in any order, or a list of them in
order.  Of fields of one name the last counts, a field that is not given has its default value, and
the fields of the other strategy are passed over. -/
theorem Options.accepted_options_survive :
    (∀ o : Options, ofJson o.toValue = .ok o) ∧
    (∀ v o, ofJson v = .ok o →
      ((∃ stem, o.temporaries = .counter stem ∧ Stem.ofString stem.text = .ok stem) ∨
        ∃ length seed, o.temporaries = .random length seed ∧
          4 ≤ length.value ∧ length.value ≤ 32) ∧
      ofJson o.toValue = .ok o) ∧
    (∀ v o, ofJson v = .ok o ↔ o.IsGiven v) := by
  have hwritten : ∀ o : Options, ofJson o.toValue = .ok o := fun o =>
    ofJson_eq_ok_iff.2 o.isGiven_toValue
  refine ⟨hwritten, ?_, fun v o => ofJson_eq_ok_iff⟩
  intro v o _
  refine ⟨?_, hwritten o⟩
  cases o.temporaries with
  | counter stem => exact .inl ⟨stem, rfl, Stem.ofString_eq_ok_iff.2 rfl⟩
  | random length seed => exact .inr ⟨length, seed, rfl, length.least_le, length.le_greatest⟩

/-- An object may hold its fields in any order and one of them twice, and a field of the other
strategy with any value. -/
theorem Options.accepted_options_survive_last_length :
    let v : Value := .object
      [("temporaries", .object [("prefix", .null), ("length", .integer 99),
        ("strategy", .string "random"), ("length", .integer 32)]),
        ("require_callee", .string "load")]
    let o : Options :=
      { requireCallee := "load", temporaries := .random ⟨32, by decide, by decide⟩ none }
    ofJson v = .ok o ∧ ofJson o.toValue = .ok o := by
  intro v o
  have hlength : IsLength (.integer 32) ⟨32, by decide, by decide⟩ :=
    ⟨32, rfl, by decide, by decide, rfl⟩
  have haccepted : ofJson v = .ok o :=
    (accepted_options_survive.2.2 v o).2 ⟨_, rfl, by simp, rfl, rfl, _, rfl, rfl, hlength, rfl⟩
  exact ⟨haccepted, (accepted_options_survive.2.1 v o haccepted).2⟩

end LijsCompiler
