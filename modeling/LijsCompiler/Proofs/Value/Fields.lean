import LijsCompiler.Value

/-!
# Fields by name

Sorting the fields of an object keeps the last value of every name (`lookup_sortFields`) and every
name once (`distinct_sortFields`).  A record is read from an object or from a list of its fields in
order.  Either way the names of its fields are distinct after sorting
(`exists_distinct_of_fields?`), so that a reader that takes one field after the other sees one value
for each name (`foldlM_eq_ok_iff`).
-/

namespace LijsCompiler.Value

def last? (name : String) (fields : List (String × Value)) : Option Value :=
  fields.reverse.lookup name

/-- The fields of a record with these names: those of an object, or the elements of a list that has
no more elements than there are names. -/
def fields? (names : List String) : Value → Option (List (String × Value))
  | object fields => some fields
  | array values => if values.length ≤ names.length then some (names.zip values) else none
  | _ => none

def Distinct (fields : List (String × Value)) : Prop := fields.Pairwise fun f g => f.1 ≠ g.1

section

variable {fields : List (String × Value)} {name : String} {value : Value}

theorem lookup_eq_none_iff : fields.lookup name = none ↔ ∀ field ∈ fields, name ≠ field.1 := by
  simp [List.lookup_eq_none_iff]

theorem lookup_cons_eq_ite (other : String) :
    ((name, value) :: fields).lookup other =
      if other = name then some value else fields.lookup other := by
  by_cases h : other = name
  · simp [h]
  · have hne : (other == name) = false := by simpa using h
    rw [List.lookup_cons, hne, if_neg h]

theorem distinct_cons :
    Distinct ((name, value) :: fields) ↔ fields.lookup name = none ∧ Distinct fields := by
  rw [lookup_eq_none_iff]
  exact List.pairwise_cons

theorem Distinct.filter (h : Distinct fields) (p : String × Value → Bool) :
    Distinct (fields.filter p) :=
  List.Pairwise.filter p h

/-- Fields of another name do not matter for the value of a name. -/
theorem lookup_filter_ne {other : String} (h : name ≠ other) :
    (fields.filter fun field => field.1 != other).lookup name = fields.lookup name := by
  induction fields with
  | nil => rfl
  | cons field fields ih =>
      rw [List.filter_cons, lookup_cons_eq_ite]
      split
      · rw [lookup_cons_eq_ite, ih]
      · rename_i hother
        have hfield : field.1 = other := by simpa using hother
        rw [ih, hfield, if_neg h]

theorem last?_eq_none_iff : last? name fields = none ↔ ∀ field ∈ fields, name ≠ field.1 := by
  unfold last?
  rw [lookup_eq_none_iff]
  simp

/-- If no name stands twice, the last value of a name is the first one. -/
theorem Distinct.last?_eq (h : Distinct fields) (name : String) :
    last? name fields = fields.lookup name := by
  unfold last?
  induction fields with
  | nil => rfl
  | cons field fields ih =>
      obtain ⟨hnone, hrest⟩ := distinct_cons.1 h
      rw [List.reverse_cons, List.lookup_append, ih hrest, lookup_cons_eq_ite, lookup_cons_eq_ite]
      by_cases hname : name = field.1
      · rw [if_pos hname, if_pos hname, hname, hnone, Option.none_or]
      · rw [if_neg hname, if_neg hname, List.lookup_nil, Option.or_none]

theorem distinct_zip {names : List String} (h : names.Nodup) (values : List Value) :
    Distinct (names.zip values) := by
  induction names generalizing values with
  | nil => exact .nil
  | cons name names ih =>
      cases values with
      | nil => exact .nil
      | cons value values =>
          obtain ⟨hname, hnames⟩ := List.nodup_cons.1 h
          rw [List.zip_cons_cons, distinct_cons, lookup_eq_none_iff]
          refine ⟨?_, ih hnames values⟩
          rintro field hfield rfl
          exact hname (List.of_mem_zip hfield).1

/-! ## Sorted fields -/

theorem lookup_insertSorted (name other : String) (value : Value)
    (fields : List (String × Value)) :
    (insertSorted name value fields).lookup other =
      if other = name then some value else fields.lookup other := by
  induction fields with
  | nil => exact lookup_cons_eq_ite other
  | cons field fields ih =>
      unfold insertSorted
      split
      · exact lookup_cons_eq_ite other
      · split
        · rename_i hsame
          rw [lookup_cons_eq_ite, lookup_cons_eq_ite, ← eq_of_beq hsame]
          split <;> rfl
        · rename_i hother
          rw [lookup_cons_eq_ite, lookup_cons_eq_ite, ih]
          have hne : name ≠ field.1 := by simpa using hother
          by_cases hname : other = name
          · rw [if_neg (hname ▸ hne), if_pos hname, if_pos hname]
          · rw [if_neg hname, if_neg hname]

theorem fst_of_mem_insertSorted {field : String × Value}
    (h : field ∈ insertSorted name value fields) : field.1 = name ∨ field ∈ fields := by
  induction fields with
  | nil =>
      obtain rfl := List.mem_singleton.1 h
      exact .inl rfl
  | cons other fields ih =>
      unfold insertSorted at h
      split at h
      · rcases List.mem_cons.1 h with rfl | h
        · exact .inl rfl
        · exact .inr h
      · split at h
        · rcases List.mem_cons.1 h with rfl | h
          · exact .inl rfl
          · exact .inr (List.mem_cons_of_mem _ h)
        · rcases List.mem_cons.1 h with rfl | h
          · exact .inr (List.mem_cons_self ..)
          · exact (ih h).imp_right (List.mem_cons_of_mem _)

/-- The names are in order, so that none stands twice. -/
def Ascending (fields : List (String × Value)) : Prop := fields.Pairwise fun f g => f.1 < g.1

theorem Ascending.distinct (h : Ascending fields) : Distinct fields := by
  refine List.Pairwise.imp ?_ h
  intro f g hlt heq
  rw [heq] at hlt
  exact String.lt_irrefl _ hlt

theorem ascending_insertSorted (h : Ascending fields) :
    Ascending (insertSorted name value fields) := by
  induction fields with
  | nil => exact List.pairwise_singleton _ _
  | cons other fields ih =>
      obtain ⟨hless, hrest⟩ := List.pairwise_cons.1 h
      unfold insertSorted
      split
      · rename_i hlt
        refine List.pairwise_cons.2 ⟨?_, h⟩
        rw [List.forall_mem_cons]
        exact ⟨hlt, fun field hfield => String.lt_trans hlt (hless field hfield)⟩
      · split
        · rename_i hsame
          obtain rfl := eq_of_beq hsame
          exact List.pairwise_cons.2 ⟨hless, hrest⟩
        · rename_i hnot hother
          have hle := String.not_lt.1 hnot
          have hlt : other.1 < name := Std.lt_of_le_of_ne hle fun heq => hother (by simp [heq])
          refine List.pairwise_cons.2 ⟨?_, ih hrest⟩
          intro field hfield
          rcases fst_of_mem_insertSorted hfield with heq | hfield
          · exact heq ▸ hlt
          · exact hless field hfield

theorem ascending_sortFields (fields : List (String × Value)) : Ascending (sortFields fields) := by
  have hfold : ∀ sorted, Ascending sorted →
      Ascending (fields.foldl (fun sorted field => insertSorted field.1 field.2 sorted) sorted) := by
    induction fields with
    | nil => exact fun _ h => h
    | cons field fields ih => exact fun _ h => ih _ (ascending_insertSorted h)
  exact hfold [] .nil

/-- Of each name the last value is kept. -/
theorem lookup_sortFields (fields : List (String × Value)) (name : String) :
    (sortFields fields).lookup name = last? name fields := by
  have hfold : ∀ sorted,
      (fields.foldl (fun sorted field => insertSorted field.1 field.2 sorted) sorted).lookup name =
        (last? name fields).or (sorted.lookup name) := by
    unfold last?
    induction fields with
    | nil => exact fun _ => rfl
    | cons field fields ih =>
        intro sorted
        rw [List.foldl_cons, ih, lookup_insertSorted, List.reverse_cons, List.lookup_append,
          Option.or_assoc, lookup_cons_eq_ite]
        congr 1
        split <;> rfl
  refine (hfold []).trans ?_
  rw [List.lookup_nil, Option.or_none]

/-! ## Records -/

theorem sortedElements_eq_map (values : List Value) :
    sortedElements values = values.map sorted := by
  induction values with
  | nil => rfl
  | cons value values ih => rw [sortedElements, ih, List.map_cons]

theorem sortedFields_eq_map (fields : List (String × Value)) :
    sortedFields fields = fields.map (Prod.map id sorted) := by
  induction fields with
  | nil => rfl
  | cons field fields ih => rw [sortedFields, ih, List.map_cons, Prod.map, id]

theorem lookup_map_sorted (fields : List (String × Value)) (name : String) :
    (fields.map (Prod.map id sorted)).lookup name = (fields.lookup name).map sorted := by
  induction fields with
  | nil => rfl
  | cons field fields ih =>
      rw [List.map_cons, Prod.map, id, lookup_cons_eq_ite, ih, lookup_cons_eq_ite]
      split <;> rfl

theorem fields?_array_eq_some_iff {names : List String} {values : List Value} :
    (array values).fields? names = some fields ↔
      values.length ≤ names.length ∧ names.zip values = fields := by
  rw [fields?]
  split
  · rename_i h
    simp [h]
  · rename_i h
    simp [h]

theorem isSome_fields?_sorted (names : List String) (v : Value) :
    (v.sorted.fields? names).isSome = (v.fields? names).isSome := by
  cases v with
  | array values =>
      rw [sorted, sortedElements_eq_map, fields?, fields?, List.length_map]
      split <;> rfl
  | _ => rfl

/-- After sorting, a record has each of its names once, with the last value of that name. -/
theorem exists_distinct_of_fields? {names : List String} (hnames : names.Nodup) {v : Value}
    (h : v.fields? names = some fields) :
    ∃ found, v.sorted.fields? names = some found ∧ Distinct found ∧
      ∀ name, found.lookup name = (last? name fields).map sorted := by
  cases v with
  | object given =>
      obtain rfl := Option.some.inj h
      refine ⟨_, rfl, (ascending_sortFields _).distinct, fun name => ?_⟩
      rw [lookup_sortFields, last?, sortedFields_eq_map, ← List.map_reverse, lookup_map_sorted,
        last?]
  | array values =>
      obtain ⟨hlength, rfl⟩ := fields?_array_eq_some_iff.1 h
      refine ⟨names.zip (values.map sorted), ?_, distinct_zip hnames _, fun name => ?_⟩
      · rw [sorted, sortedElements_eq_map, fields?_array_eq_some_iff, List.length_map]
        exact ⟨hlength, rfl⟩
      · rw [List.zip_map_right, lookup_map_sorted, (distinct_zip hnames values).last?_eq]
  | _ => cases h

/-- What is read from a sorted record can be said about the last values of its fields. -/
theorem exists_fields?_sorted_iff {names : List String} (hnames : names.Nodup) {v : Value}
    {P Q : List (String × Value) → Prop}
    (h : ∀ found fields, Distinct found →
      (∀ name, found.lookup name = (last? name fields).map sorted) → (P found ↔ Q fields)) :
    (∃ found, v.sorted.fields? names = some found ∧ P found) ↔
      ∃ fields, v.fields? names = some fields ∧ Q fields := by
  constructor
  · rintro ⟨found, hfound, hP⟩
    have hsome : (v.fields? names).isSome := by
      rw [← isSome_fields?_sorted, hfound, Option.isSome_some]
    obtain ⟨fields, hfields⟩ := Option.isSome_iff_exists.1 hsome
    obtain ⟨found', hfound', hdistinct, hlook⟩ := exists_distinct_of_fields? hnames hfields
    obtain rfl := Option.some.inj (hfound.symm.trans hfound')
    exact ⟨fields, hfields, (h _ _ hdistinct hlook).1 hP⟩
  · rintro ⟨fields, hfields, hQ⟩
    obtain ⟨found, hfound, hdistinct, hlook⟩ := exists_distinct_of_fields? hnames hfields
    exact ⟨found, hfound, (h _ _ hdistinct hlook).2 hQ⟩

/-! ## Readers that take one field after the other -/

/-- A field that is given is as `P` says, and one that is not is the default. -/
def Given {β : Type} (P : Value → β → Prop) (default : β) : Option Value → β → Prop
  | none, b => b = default
  | some value, b => P value b

@[simp] theorem given_none {β : Type} {P : Value → β → Prop} {default b : β} :
    Given P default none b ↔ b = default := .rfl

@[simp] theorem given_some {β : Type} {P : Value → β → Prop} {default b : β} {value : Value} :
    Given P default (some value) b ↔ P value b := .rfl

/-- A reader of distinct fields answers as it would for the values found by name, if its answer
for no field is its start, and one more field is a step ahead of the others. -/
theorem foldlM_eq_ok_iff {ε σ : Type} {step : σ → String × Value → Except ε σ}
    {Ends : (String → Option Value) → σ → σ → Prop}
    (hnil : ∀ s t, Ends (fun _ => none) s t ↔ t = s)
    (hcons : ∀ look name value s t, look name = none →
      (Ends (fun other => if other = name then some value else look other) s t ↔
        ∃ next, step s (name, value) = .ok next ∧ Ends look next t))
    (hdistinct : Distinct fields) {s t : σ} :
    fields.foldlM step s = .ok t ↔ Ends (fun name => fields.lookup name) s t := by
  induction fields generalizing s with
  | nil =>
      rw [List.foldlM_nil]
      exact ⟨fun h => (hnil s t).2 (Except.ok.inj h).symm,
        fun h => congrArg _ ((hnil s t).1 h).symm⟩
  | cons field fields ih =>
      obtain ⟨hnone, hrest⟩ := distinct_cons.1 hdistinct
      have hlook := hcons (fun name => fields.lookup name) field.1 field.2 s t hnone
      simp only [← lookup_cons_eq_ite] at hlook
      rw [List.foldlM_cons, hlook]
      cases hstep : step s field with
      | error e => simp [bind, Except.bind]
      | ok next => simpa [bind, Except.bind] using ih hrest

end

end LijsCompiler.Value
