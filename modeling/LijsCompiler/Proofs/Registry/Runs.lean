import LijsCompiler.Proofs.Registry.Fresh

/-!
# Runs of a registry

A run is a sequence of requests with their answers.  What a registry knows after a run can be read
off the run (`Records`): the reserved names, the declared ones and the drawn ones.  One request keeps
this (`Records.answers`), so it holds after every run, and it tells what the next answer can be.

A draw takes as many candidates as it needs.  Where a search is given up plays no part here.
-/

namespace LijsCompiler

theorem isLoopIndex_iff {name : String} :
    isLoopIndex name ↔
      ∃ digits, digits ≠ [] ∧ (∀ c ∈ digits, c.isDigit) ∧ name = "_i" ++ String.ofList digits := by
  have hspelled (digits : List Char) :
      name = "_i" ++ String.ofList digits ↔ name.toList = '_' :: 'i' :: digits := by
    rw [← String.toList_inj, String.toList_append]
    simp
  simp only [hspelled]
  unfold isLoopIndex
  split
  · rename_i digits hname
    simp [hname]
  · rename_i hother
    simp only [Bool.false_eq_true, false_iff, not_exists]
    rintro digits ⟨-, -, hname⟩
    exact hother digits hname

namespace Registry

/-- `r.Answers request reply r'`: the registry `r` answers a request and is then `r'`. -/
inductive Answers (r : Registry) : Request → Reply → Registry → Prop where
  | plain {request : Request} {reply : Reply} {r' : Registry}
      (h : r.answer? request = some (reply, r')) : r.Answers request reply r'
  /-- A draw is not bound to any number of candidates. -/
  | search {limit : Nat} {name : String} {r' : Registry}
      (h : r.search limit = some (name, r')) : r.Answers .fresh (.name name) r'

/-- What a registry does to answer a request. -/
theorem Answers.inversion {r r' : Registry} {request : Request} {reply : Reply}
    (h : r.Answers request reply r') :
    (∃ name, request = .reserve name ∧ reply = .done ∧ r' = r.reserve name) ∨
      (∃ name, request = .introduce name ∧ reply = .verdict (name ∉ r.introduced) ∧
        r' = r.introduce name) ∨
      (((∃ name, request = .taken name ∧ reply = .verdict (r.isTaken name)) ∨
        request = .names ∧ reply = .names r.introduced) ∧ r' = r) ∨
      ∃ name, request = .fresh ∧ reply = .name name ∧ r.Draws name r' := by
  cases h with
  | search h => exact .inr (.inr (.inr ⟨_, rfl, rfl, draws_of_search h⟩))
  | plain h =>
      cases request with
      | reserve name =>
          cases h
          exact .inl ⟨name, rfl, rfl, rfl⟩
      | introduce name =>
          cases h
          exact .inr (.inl ⟨name, rfl, rfl, rfl⟩)
      | taken name =>
          cases h
          exact .inr (.inr (.inl ⟨.inl ⟨name, rfl, rfl⟩, rfl⟩))
      | names =>
          cases h
          exact .inr (.inr (.inl ⟨.inr ⟨rfl, rfl⟩, rfl⟩))
      | fresh =>
          obtain ⟨⟨name, r₁⟩, hfresh, h⟩ := Option.bind_eq_some_iff.1 h
          cases h
          exact .inr (.inr (.inr ⟨name, rfl, rfl, draws_of_fresh? hfresh⟩))

/-- `r.Runs past r'`: the requests of `past` are answered in turn, as `past` says. -/
inductive Runs (r : Registry) : List (Request × Reply) → Registry → Prop where
  | nil : r.Runs [] r
  | snoc {past : List (Request × Reply)} {request : Request} {reply : Reply} {s s' : Registry}
      (hpast : r.Runs past s) (hnext : s.Answers request reply s') :
      r.Runs (past ++ [(request, reply)]) s'

theorem Runs.append_of_run? {r s r' : Registry} {past : List (Request × Reply)}
    {requests : List Request} {replies : List Reply} (hpast : r.Runs past s)
    (h : s.run? requests = some (replies, r')) : r.Runs (past ++ requests.zip replies) r' := by
  induction requests generalizing past s replies with
  | nil =>
      cases h
      simpa using hpast
  | cons request requests ih =>
      obtain ⟨⟨reply, s₁⟩, hanswer, h⟩ := Option.bind_eq_some_iff.1 h
      obtain ⟨⟨others, s₂⟩, hrun, h⟩ := Option.bind_eq_some_iff.1 h
      cases h
      have hnext := ih (hpast.snoc (.plain hanswer)) hrun
      rwa [List.append_assoc] at hnext

/-- The answers of `run?` make up a run. -/
theorem runs_of_run? {r r' : Registry} {requests : List Request} {replies : List Reply}
    (h : r.run? requests = some (replies, r')) : r.Runs (requests.zip replies) r' :=
  Runs.append_of_run? .nil h

/-! ## What a registry knows after a run -/

def drawnName? : Request × Reply → Option String
  | (.fresh, .name name) => some name
  | _ => none

def drawnNames (past : List (Request × Reply)) : List String := past.filterMap drawnName?

theorem drawnNames_concat (past : List (Request × Reply)) (event : Request × Reply) :
    drawnNames (past ++ [event]) = drawnNames past ++ (drawnName? event).toList := by
  rw [drawnNames, List.filterMap_append]
  cases h : drawnName? event <;> simp [drawnNames, h]

structure Records (past : List (Request × Reply)) (r : Registry) : Prop where
  mem_reserved : ∀ name, name ∈ r.reserved ↔ .reserve name ∈ past.map Prod.fst
  mem_introduced : ∀ name, name ∈ r.introduced ↔
    .introduce name ∈ past.map Prod.fst ∨ name ∈ drawnNames past
  nodup : r.introduced.Nodup
  drawn : (drawnNames past).Sublist r.introduced
  isLoopIndex : ∀ name ∈ drawnNames past, isLoopIndex name = false

theorem records_ofStrategy (supply : Supply) (strategy : Strategy) :
    Records [] (ofStrategy supply strategy) := by
  constructor <;> simp [ofStrategy, drawnNames]

@[simp] theorem introduced_reserve (r : Registry) (name : String) :
    (r.reserve name).introduced = r.introduced := by
  unfold reserve
  split <;> rfl

theorem introduced_prefix_introduce (r : Registry) (name : String) :
    r.introduced <+: (r.introduce name).introduced := by
  unfold introduce
  split
  · exact List.prefix_refl _
  · exact List.prefix_append _ _

theorem nodup_introduced_introduce {r : Registry} (h : r.introduced.Nodup) (name : String) :
    (r.introduce name).introduced.Nodup := by
  unfold introduce
  split
  · exact h
  · rename_i hnew
    refine List.nodup_append.2 ⟨h, by simp, ?_⟩
    rintro other hother _ hname rfl
    obtain rfl := List.mem_singleton.1 hname
    exact hnew hother

/-- A draw adds a name to the declared ones as a declaration does. -/
theorem Draws.introduced_eq {r r' : Registry} {name : String} (h : r.Draws name r') :
    r'.introduced = (r.introduce name).introduced := by
  rw [h.introduced, introduce, if_neg h.not_mem_introduced]

/-! ## One request -/

section Answers

variable {r r' : Registry} {request : Request} {reply : Reply} {name : String}

theorem Answers.draws (h : r.Answers request reply r')
    (hname : drawnName? (request, reply) = some name) : r.Draws name r' := by
  rcases h.inversion with ⟨_, rfl, rfl, -⟩ | ⟨_, rfl, rfl, -⟩ | ⟨⟨_, rfl, rfl⟩ | ⟨rfl, rfl⟩, -⟩ |
    ⟨_, rfl, rfl, hdraws⟩
  case inr.inr.inr =>
    cases hname
    exact hdraws
  all_goals cases hname

theorem Answers.mem_reserved (h : r.Answers request reply r') :
    name ∈ r'.reserved ↔ name ∈ r.reserved ∨ .reserve name = request := by
  rcases h.inversion with ⟨_, rfl, -, rfl⟩ | ⟨_, rfl, -, rfl⟩ | ⟨⟨_, rfl, -⟩ | ⟨rfl, -⟩, rfl⟩ |
    ⟨_, rfl, -, hdraws⟩
  · simp [mem_reserved_reserve, or_comm]
  · simp
  · simp
  · simp
  · simp [hdraws.reserved]

theorem Answers.mem_introduced (h : r.Answers request reply r') :
    name ∈ r'.introduced ↔
      name ∈ r.introduced ∨ .introduce name = request ∨
        drawnName? (request, reply) = some name := by
  rcases h.inversion with ⟨_, rfl, rfl, rfl⟩ | ⟨_, rfl, rfl, rfl⟩ |
    ⟨⟨_, rfl, rfl⟩ | ⟨rfl, rfl⟩, rfl⟩ | ⟨_, rfl, rfl, hdraws⟩
  · simp [drawnName?]
  · simp [drawnName?, mem_introduced_introduce]
  · simp [drawnName?]
  · simp [drawnName?]
  · simp [drawnName?, hdraws.introduced, eq_comm]

/-- No request takes a declared name away, puts one in front or adds one that is there. -/
theorem Answers.introduced_prefix (h : r.Answers request reply r') :
    r.introduced <+: r'.introduced ∧ (r.introduced.Nodup → r'.introduced.Nodup) := by
  rcases h.inversion with ⟨name, -, -, rfl⟩ | ⟨name, -, -, rfl⟩ | ⟨-, rfl⟩ | ⟨name, -, -, hdraws⟩
  · rw [introduced_reserve]
    exact ⟨List.prefix_refl _, id⟩
  · exact ⟨introduced_prefix_introduce r name, fun h => nodup_introduced_introduce h name⟩
  · exact ⟨List.prefix_refl _, id⟩
  · rw [hdraws.introduced_eq]
    exact ⟨introduced_prefix_introduce r name, fun h => nodup_introduced_introduce h name⟩

end Answers

/-! ## Whole runs -/

theorem Runs.introduced_prefix {r r' : Registry} {past : List (Request × Reply)}
    (h : r.Runs past r') : r.introduced <+: r'.introduced := by
  induction h with
  | nil => exact List.prefix_refl _
  | snoc _ hnext ih => exact ih.trans hnext.introduced_prefix.1

/-- What a registry knows stays true of the run with one more request. -/
theorem Records.answers {past : List (Request × Reply)} {r r' : Registry} {request : Request}
    {reply : Reply} (hr : Records past r) (h : r.Answers request reply r') :
    Records (past ++ [(request, reply)]) r' := by
  have hrequests (other : Request) : other ∈ (past ++ [(request, reply)]).map Prod.fst ↔
      other ∈ past.map Prod.fst ∨ other = request := by
    rw [List.map_append, List.mem_append, List.map_singleton, List.mem_singleton]
  constructor
  · intro name
    rw [h.mem_reserved, hr.mem_reserved, hrequests]
  · intro name
    rw [h.mem_introduced, hr.mem_introduced, hrequests, drawnNames_concat, List.mem_append,
      Option.mem_toList, or_or_or_comm]
  · exact h.introduced_prefix.2 hr.nodup
  · rw [drawnNames_concat]
    cases hname : drawnName? (request, reply) with
    | none => simpa using hr.drawn.trans h.introduced_prefix.1.sublist
    | some name =>
        rw [(h.draws hname).introduced]
        exact hr.drawn.append (List.Sublist.refl _)
  · rw [drawnNames_concat, List.forall_mem_append]
    refine ⟨hr.isLoopIndex, fun name hname => ?_⟩
    exact (h.draws (Option.mem_toList.1 hname)).isLoopIndex

theorem Runs.records {r r' : Registry} {past : List (Request × Reply)} (h : r.Runs past r')
    (hr : Records [] r) : Records past r' := by
  induction h with
  | nil => exact hr
  | snoc _ hnext ih => exact ih.answers hnext

/-- After any run of a registry, whatever its strategy, the declared names are those that were
declared or drawn, none of them twice, and later requests only add names at the end.  To declare a
name succeeds exactly if it is new, and changes nothing if it is not.  A draw gives a name that was
neither reserved, declared nor drawn before, is declared from then on, begins with no digit and is
not spelled like a loop index.  So the names drawn in a run differ from one another and from all loop
indices. -/
theorem names_of_runs {supply : Supply} {strategy : Strategy}
    {past : List (Request × Reply)} {r : Registry}
    (h : (ofStrategy supply strategy).Runs past r) :
    r.introduced.Nodup ∧
      (∀ name, name ∈ r.introduced ↔
        .introduce name ∈ past.map Prod.fst ∨ name ∈ drawnNames past) ∧
      (∀ reply r', r.Answers .names reply r' → reply = .names r.introduced) ∧
      (∀ future r', r.Runs future r' → r.introduced <+: r'.introduced) ∧
      (∀ name reply r', r.Answers (.introduce name) reply r' →
        ∃ isNew, reply = .verdict isNew ∧ (isNew = true ↔ name ∉ r.introduced) ∧
          (isNew = false → r'.introduced = r.introduced)) ∧
      (∀ reply r', r.Answers .fresh reply r' →
        ∃ name, reply = .name name ∧
          .reserve name ∉ past.map Prod.fst ∧ name ∉ r.introduced ∧ name ∈ r'.introduced ∧
          Name.startsWithDigit name = false ∧
          ¬ ∃ digits, digits ≠ [] ∧ (∀ c ∈ digits, c.isDigit) ∧
            name = "_i" ++ String.ofList digits) ∧
      (drawnNames past).Nodup ∧ ∀ name ∈ drawnNames past, ∀ depth, name ≠ loopIndex depth := by
  have hrecords := h.records (records_ofStrategy supply strategy)
  refine ⟨hrecords.nodup, hrecords.mem_introduced, ?_, fun _ _ => Runs.introduced_prefix, ?_, ?_,
    hrecords.nodup.sublist hrecords.drawn, ?_⟩
  · rintro reply r' (⟨⟨⟩⟩)
    rfl
  · rintro name reply r' (⟨⟨⟩⟩)
    refine ⟨_, rfl, by simp, fun hold => ?_⟩
    rw [introduce, if_pos (by simpa using hold)]
  · intro reply r' hfresh
    rcases hfresh.inversion with ⟨_, ⟨⟩, -⟩ | ⟨_, ⟨⟩, -⟩ | ⟨⟨_, ⟨⟩, -⟩ | ⟨⟨⟩, -⟩, -⟩ |
      ⟨name, -, rfl, hdraws⟩
    refine ⟨name, rfl, ?_, hdraws.not_mem_introduced, ?_, hdraws.startsWithDigit, ?_⟩
    · rw [← hrecords.mem_reserved]
      exact hdraws.not_mem_reserved
    · rw [hdraws.introduced]
      exact List.mem_append_right _ (List.mem_singleton.2 rfl)
    · rw [← isLoopIndex_iff, hdraws.isLoopIndex]
      exact Bool.false_ne_true
  · rintro name hname depth rfl
    have hfalse := hrecords.isLoopIndex _ hname
    rw [isLoopIndex_loopIndex] at hfalse
    cases hfalse

/-- A name declared by hand that the counter reaches later, and one reserved after the first draw. -/
theorem names_of_runs_late_reserve :
    ∃ r, (ofStrategy (.ofSeed 0) .standard).Runs
        [(.introduce "_t1", .verdict true), (.fresh, .name "_t0"), (.reserve "_t2", .done),
          (.introduce "_t1", .verdict false), (.fresh, .name "_t3")] r ∧
      r.introduced = ["_t1", "_t0", "_t3"] ∧ r.introduced.Nodup ∧ ["_t0", "_t3"].Nodup ∧
      ∀ name ∈ ["_t0", "_t3"], ∀ depth, name ≠ loopIndex depth := by
  have hrun : ((ofStrategy (.ofSeed 0) .standard).run?
      [.introduce "_t1", .fresh, .reserve "_t2", .introduce "_t1", .fresh]).map
        (fun result => (result.1, result.2.introduced)) =
      some ([.verdict true, .name "_t0", .done, .verdict false, .name "_t3"],
        ["_t1", "_t0", "_t3"]) := by
    decide +kernel
  obtain ⟨⟨replies, r⟩, hrun, heq⟩ := Option.map_eq_some_iff.1 hrun
  obtain ⟨rfl, hnames⟩ := Prod.mk.inj heq
  have hruns := runs_of_run? hrun
  obtain ⟨hnodup, -, -, -, -, -, hdrawn, hindices⟩ := names_of_runs hruns
  exact ⟨r, hruns, hnames, hnodup, hdrawn, hindices⟩

end Registry

end LijsCompiler
