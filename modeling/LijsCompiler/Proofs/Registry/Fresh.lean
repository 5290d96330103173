import LijsCompiler.Registry

/-!
# Drawn names

What a draw gives (`Draws`), and what stays true of a registry over any run (`Sound`).  Numbered
names differ from one another, and none of them is refused for its spelling.
-/

namespace LijsCompiler

/-! ## Numbered names -/

theorem isDigit_of_mem_toDigits {n : Nat} : ∀ c ∈ Nat.toDigits 10 n, c.isDigit :=
  fun _ hc => Nat.isDigit_of_mem_toDigits (by decide) (by decide) hc

namespace Stem

theorem toList_numbered (stem : Stem) (n : Nat) :
    (stem.numbered n).toList = stem.text.toList ++ Nat.toDigits 10 n := by
  rw [numbered, String.toList_append, Nat.toString_eq_ofList_toDigits, String.toList_ofList]

theorem numbered_injective (stem : Stem) {n m : Nat} (h : stem.numbered n = stem.numbered m) :
    n = m := by
  have hdigits : Nat.toDigits 10 n = Nat.toDigits 10 m := by
    simpa [toList_numbered] using congrArg String.toList h
  rw [← @Nat.ofDigitChars_ten_toDigits n, hdigits, Nat.ofDigitChars_ten_toDigits]

theorem fault?_eq_none_iff {text : String} :
    fault? text = none ↔ isIdentifier text.toList ∧ isLoopIndex (text ++ "0") = false := by
  unfold fault?
  split
  · simp_all
  · split <;> simp_all

/-- A valid stem is not empty and begins with no digit. -/
theorem exists_text_eq_cons (stem : Stem) :
    ∃ c cs, stem.text.toList = c :: cs ∧ c.isDigit = false := by
  obtain ⟨hidentifier, -⟩ := fault?_eq_none_iff.1 stem.valid
  cases htext : stem.text.toList with
  | nil => simp [htext, isIdentifier] at hidentifier
  | cons c cs =>
      rw [htext, isIdentifier] at hidentifier
      refine ⟨c, cs, rfl, ?_⟩
      simp only [Bool.and_eq_true, Bool.not_eq_true'] at hidentifier
      exact hidentifier.1.2

theorem startsWithDigit_numbered (stem : Stem) (n : Nat) :
    Name.startsWithDigit (stem.numbered n) = false := by
  obtain ⟨c, cs, htext, hc⟩ := exists_text_eq_cons stem
  unfold Name.startsWithDigit
  rw [toList_numbered, htext]
  exact hc

end Stem

/-- Digits at the end of a text do not decide by themselves whether it is a loop index. -/
theorem isLoopIndex_append {text digits : List Char} (hne : digits ≠ [])
    (hdigits : ∀ c ∈ digits, c.isDigit) :
    isLoopIndex (String.ofList (text ++ digits)) =
      (text.take 2 == ['_', 'i'] && (text.drop 2).all Char.isDigit) := by
  obtain ⟨d, ds, rfl⟩ := List.exists_cons_of_ne_nil hne
  have hd : d.isDigit := hdigits d (by simp)
  unfold isLoopIndex
  rw [String.toList_ofList]
  rcases text with _ | ⟨a, _ | ⟨b, rest⟩⟩
  · split
    · rename_i heq
      obtain ⟨rfl, -⟩ := List.cons.inj heq
      simp at hd
    · simp
  · split
    · rename_i heq
      obtain ⟨-, heq⟩ := List.cons.inj heq
      obtain ⟨rfl, -⟩ := List.cons.inj heq
      simp at hd
    · simp
  · split
    · rename_i heq
      simp only [List.cons_append, List.cons.injEq] at heq
      obtain ⟨rfl, rfl, rfl⟩ := heq
      have hall : (d :: ds).all Char.isDigit := List.all_eq_true.2 hdigits
      rw [List.all_append, hall]
      simp
    · rename_i hother
      have hab : ¬ (a = '_' ∧ b = 'i') := by
        rintro ⟨rfl, rfl⟩
        exact hother _ rfl
      have hbefore : (List.take 2 (a :: b :: rest) == ['_', 'i']) = false := by
        simpa using hab
      rw [hbefore, Bool.false_and]

theorem isLoopIndex_loopIndex (depth : Nat) : isLoopIndex (loopIndex depth) := by
  have hindex : loopIndex depth = String.ofList (['_', 'i'] ++ Nat.toDigits 10 depth) := by
    rw [loopIndex, Nat.toString_eq_ofList_toDigits, String.ofList_append]
  rw [hindex, isLoopIndex_append Nat.toDigits_ne_nil isDigit_of_mem_toDigits]
  rfl

theorem Stem.isLoopIndex_numbered (stem : Stem) (n : Nat) :
    isLoopIndex (stem.numbered n) = false := by
  obtain ⟨-, hzero⟩ := fault?_eq_none_iff.1 stem.valid
  -- one digit tells as much as many
  calc
    isLoopIndex (stem.numbered n)
      = isLoopIndex (String.ofList (stem.text.toList ++ Nat.toDigits 10 n)) := by
        rw [← toList_numbered, String.ofList_toList]
    _ = isLoopIndex (String.ofList (stem.text.toList ++ ['0'])) := by
        rw [isLoopIndex_append Nat.toDigits_ne_nil isDigit_of_mem_toDigits,
          isLoopIndex_append (by simp) (by simp)]
    _ = isLoopIndex (stem.text ++ "0") := by
        rw [String.ofList_append, String.ofList_toList]
    _ = false := hzero

/-! ## Draws -/

namespace Registry

/-- What a draw gives: a name that is fit to be drawn, recorded as declared and as drawn. -/
structure Draws (r : Registry) (name : String) (r' : Registry) : Prop where
  startsWithDigit : Name.startsWithDigit name = false
  isLoopIndex : isLoopIndex name = false
  not_mem_reserved : name ∉ r.reserved
  not_mem_introduced : name ∉ r.introduced
  reserved : r'.reserved = r.reserved
  introduced : r'.introduced = r.introduced ++ [name]
  drawn : r'.drawn = r.drawn ++ [name]

theorem draws_of_search {r r' : Registry} {limit : Nat} {name : String}
    (h : r.search limit = some (name, r')) : r.Draws name r' := by
  induction limit generalizing r with
  | zero => cases h
  | succ limit ih =>
      rw [search] at h
      obtain ⟨⟨candidate, generator⟩, -, h⟩ := Option.bind_eq_some_iff.1 h
      dsimp only at h
      split at h
      · rename_i haccepts
        cases h
        simp only [accepts, isTaken, Bool.and_eq_true, Bool.not_eq_true', Bool.or_eq_false_iff,
          decide_eq_false_iff_not] at haccepts
        obtain ⟨⟨hdigit, hindex⟩, hreserved, hintroduced⟩ := haccepts
        constructor
        · exact hdigit
        · exact hindex
        · exact hreserved
        · exact hintroduced
        all_goals simp [draw, introduce, hintroduced]
      · obtain ⟨hdigit, hindex, hreserved, hintroduced, hsame, happend, hdrawn⟩ := ih h
        exact ⟨hdigit, hindex, hreserved, hintroduced, hsame, happend, hdrawn⟩

theorem draws_of_fresh? {r r' : Registry} {name : String} (h : r.fresh? = some (name, r')) :
    r.Draws name r' :=
  draws_of_search h

/-! ## What stays true of a registry -/

@[simp] theorem reserved_introduce (r : Registry) (name : String) :
    (r.introduce name).reserved = r.reserved := by
  unfold introduce
  split <;> rfl

@[simp] theorem drawn_introduce (r : Registry) (name : String) :
    (r.introduce name).drawn = r.drawn := by
  unfold introduce
  split <;> rfl

@[simp] theorem generator_introduce (r : Registry) (name : String) :
    (r.introduce name).generator = r.generator := by
  unfold introduce
  split <;> rfl

theorem mem_introduced_introduce {r : Registry} {name other : String} :
    other ∈ (r.introduce name).introduced ↔ other ∈ r.introduced ∨ other = name := by
  unfold introduce
  split
  · rename_i hmem
    constructor
    · exact .inl
    · rintro (h | rfl)
      · exact h
      · exact hmem
  · simp

/-- The drawn names are declared, differ from one another and from the reserved names, and are no
loop indices. -/
structure Sound (r : Registry) : Prop where
  nodup : r.drawn.Nodup
  introduced : ∀ name ∈ r.drawn, name ∈ r.introduced
  not_mem_reserved : ∀ name ∈ r.drawn, name ∉ r.reserved
  isLoopIndex : ∀ name ∈ r.drawn, isLoopIndex name = false

theorem Sound.introduce {r : Registry} (h : r.Sound) (name : String) :
    (r.introduce name).Sound := by
  constructor
  · rw [drawn_introduce]
    exact h.nodup
  · intro other hother
    rw [drawn_introduce] at hother
    exact mem_introduced_introduce.2 (.inl (h.introduced other hother))
  · rw [drawn_introduce, reserved_introduce]
    exact h.not_mem_reserved
  · rw [drawn_introduce]
    exact h.isLoopIndex

theorem Sound.of_draws {r r' : Registry} {name : String} (h : r.Sound) (hdraws : r.Draws name r') :
    r'.Sound := by
  have hnew : name ∉ r.drawn := fun hmem => hdraws.not_mem_introduced (h.introduced name hmem)
  constructor
  · rw [hdraws.drawn, List.nodup_append]
    refine ⟨h.nodup, by simp, ?_⟩
    rintro other hother _ hname rfl
    obtain rfl := List.mem_singleton.1 hname
    exact hnew hother
  · rw [hdraws.drawn, hdraws.introduced]
    intro other hother
    rcases List.mem_append.1 hother with hother | hother
    · exact List.mem_append_left _ (h.introduced other hother)
    · exact List.mem_append_right _ hother
  · rw [hdraws.drawn, hdraws.reserved, List.forall_mem_append, List.forall_mem_singleton]
    exact ⟨h.not_mem_reserved, hdraws.not_mem_reserved⟩
  · rw [hdraws.drawn, List.forall_mem_append, List.forall_mem_singleton]
    exact ⟨h.isLoopIndex, hdraws.isLoopIndex⟩

theorem sound_of_drawn_eq_nil {r : Registry} (h : r.drawn = []) : r.Sound := by
  constructor <;> simp [h]

/-! ## Reserved names -/

theorem mem_reserved_reserve {r : Registry} {name other : String} :
    other ∈ (r.reserve name).reserved ↔ other = name ∨ other ∈ r.reserved := by
  unfold reserve
  split
  · rename_i hmem
    constructor
    · exact .inr
    · rintro (rfl | h)
      · exact hmem
      · exact h
  · exact List.mem_cons

theorem mem_reserved_foldl_reserve {names : List String} {r : Registry} {name : String}
    (h : name ∈ names ∨ name ∈ r.reserved) : name ∈ (names.foldl reserve r).reserved := by
  induction names generalizing r with
  | nil => simpa using h
  | cons first names ih =>
      apply ih
      rw [mem_reserved_reserve]
      rcases h with h | h
      · rcases List.mem_cons.1 h with rfl | h
        · exact .inr (.inl rfl)
        · exact .inl h
      · exact .inr (.inr h)

/-- Reserving names changes nothing else. -/
theorem foldl_reserve_eq (names : List String) (r : Registry) :
    names.foldl reserve r = { r with reserved := (names.foldl reserve r).reserved } := by
  induction names generalizing r with
  | nil => rfl
  | cons name names ih =>
      have hreserve : r.reserve name = { r with reserved := (r.reserve name).reserved } := by
        unfold reserve
        split <;> rfl
      rw [List.foldl_cons, ih, hreserve]

end Registry

end LijsCompiler
