import Mathlib.Data.Finset.Card
import Mathlib.Order.Nat
import LijsCompiler.Proofs.Registry.Runs

/-!
# Counters

A counter tries its numbered names in turn.  None of them is refused for its spelling, so only taken
names are passed over.  The numbered names differ from one another, so not all of them are taken,
and a draw ends at the least number whose name is free (`search_counter_eq`).  The next draw begins
behind that number: the numbers drawn in a run increase (`CountsTo`).
-/

namespace LijsCompiler.Registry

/-! ## The least free number -/

def takenNames (r : Registry) : Finset String := (r.reserved ++ r.introduced).toFinset

theorem mem_takenNames {r : Registry} {name : String} : name ∈ r.takenNames ↔ r.isTaken name := by
  simp [takenNames, isTaken]

def freeFrom (r : Registry) (stem : Stem) (n : Nat) : Set Nat :=
  {k | n ≤ k ∧ r.isTaken (stem.numbered k) = false}

/-- Of one more numbers than there are taken names, one is free. -/
theorem exists_mem_freeFrom (r : Registry) (stem : Stem) (n : Nat) :
    ∃ k ∈ r.freeFrom stem n, k ≤ n + r.takenNames.card := by
  have hinjective : Function.Injective fun i => stem.numbered (n + i) := by
    intro i j heq
    have := stem.numbered_injective heq
    omega
  have hmore : r.takenNames.card <
      ((Finset.range (r.takenNames.card + 1)).image fun i => stem.numbered (n + i)).card := by
    rw [Finset.card_image_of_injective _ hinjective, Finset.card_range]
    omega
  obtain ⟨name, hname, hfree⟩ := Finset.exists_mem_notMem_of_card_lt_card hmore
  obtain ⟨i, hi, rfl⟩ := Finset.mem_image.1 hname
  rw [Finset.mem_range] at hi
  rw [mem_takenNames, Bool.not_eq_true] at hfree
  exact ⟨n + i, ⟨by omega, hfree⟩, by omega⟩

theorem exists_isLeast_freeFrom (r : Registry) (stem : Stem) (n : Nat) :
    ∃ k, IsLeast (r.freeFrom stem n) k ∧ k ≤ n + r.takenNames.card := by
  classical
  obtain ⟨free, hfree, hle⟩ := exists_mem_freeFrom r stem n
  have hexists : ∃ k, k ∈ r.freeFrom stem n := ⟨free, hfree⟩
  exact ⟨Nat.find hexists, Nat.isLeast_find hexists, (Nat.find_min' hexists hfree).trans hle⟩

/-- Where a number is taken, the search for a free one goes on behind it. -/
theorem freeFrom_succ {r : Registry} {stem : Stem} {n : Nat} (h : r.isTaken (stem.numbered n)) :
    r.freeFrom stem (n + 1) = r.freeFrom stem n := by
  ext k
  constructor
  · rintro ⟨hle, hfree⟩
    exact ⟨by omega, hfree⟩
  · rintro ⟨hle, hfree⟩
    refine ⟨?_, hfree⟩
    rcases Nat.eq_or_lt_of_le hle with rfl | hlt
    · rw [h] at hfree
      cases hfree
    · exact hlt

/-! ## A draw from a counter -/

def drawNumbered (r : Registry) (stem : Stem) (k : Nat) : Registry :=
  { r with
    introduced := r.introduced ++ [stem.numbered k]
    drawn := r.drawn ++ [stem.numbered k]
    generator := .counter stem (k + 1) }

/-- A numbered name is never refused for its spelling. -/
theorem accepts_numbered (r : Registry) (stem : Stem) (n : Nat) :
    r.accepts (stem.numbered n) = !r.isTaken (stem.numbered n) := by
  simp [accepts, stem.startsWithDigit_numbered, stem.isLoopIndex_numbered]

theorem search_counter_succ {r : Registry} {stem : Stem} {n : Nat}
    (hgen : r.generator = .counter stem n) (limit : Nat) :
    r.search (limit + 1) =
      if r.isTaken (stem.numbered n) then { r with generator := .counter stem (n + 1) }.search limit
      else some (stem.numbered n, r.drawNumbered stem n) := by
  rw [search, hgen]
  change (if accepts _ (stem.numbered n) then _ else _) = _
  rw [accepts_numbered]
  change (if !r.isTaken (stem.numbered n) then _ else _) = _
  by_cases htaken : r.isTaken (stem.numbered n)
  · rw [htaken]
    rfl
  · have hintroduced : stem.numbered n ∉ r.introduced := by
      simp only [isTaken, Bool.or_eq_true, decide_eq_true_eq, not_or] at htaken
      exact htaken.2
    rw [Bool.not_eq_true] at htaken
    simp [htaken, draw, introduce, hintroduced, drawNumbered]

/-- A counter at `n` draws the least free number `k`, and for this it tries the candidates from `n`
to `k`. -/
theorem search_counter_eq {r : Registry} {stem : Stem} {n k : Nat}
    (hgen : r.generator = .counter stem n) (hleast : IsLeast (r.freeFrom stem n) k) (limit : Nat) :
    r.search limit =
      if limit ≤ k - n then none else some (stem.numbered k, r.drawNumbered stem k) := by
  induction limit generalizing r n with
  | zero => rw [search, if_pos (Nat.zero_le _)]
  | succ limit ih =>
      rw [search_counter_succ hgen]
      obtain ⟨⟨hle, hfree⟩, hlower⟩ := hleast
      by_cases htaken : r.isTaken (stem.numbered n)
      -- the counter moves on, and the least free number stays the same
      · have hlt : n < k := by
          rcases Nat.eq_or_lt_of_le hle with rfl | hlt
          · rw [htaken] at hfree
            cases hfree
          · exact hlt
        have hnext : IsLeast (freeFrom { r with generator := .counter stem (n + 1) } stem (n + 1))
            k := by
          change IsLeast (r.freeFrom stem (n + 1)) k
          rw [freeFrom_succ htaken]
          exact ⟨⟨hle, hfree⟩, hlower⟩
        have hlimit : limit ≤ k - (n + 1) ↔ limit + 1 ≤ k - n := by omega
        rw [if_pos htaken, ih rfl hnext]
        simp only [hlimit]
        rfl
      · obtain rfl : k = n :=
          Nat.le_antisymm (hlower ⟨Nat.le_refl n, by simpa using htaken⟩) hle
        rw [if_neg htaken, if_neg (by omega)]

/-- What a counter draws, if it does not give up before. -/
theorem exists_eq_of_search_counter {r r' : Registry} {stem : Stem} {n limit : Nat} {name : String}
    (hgen : r.generator = .counter stem n) (h : r.search limit = some (name, r')) :
    ∃ k, IsLeast (r.freeFrom stem n) k ∧ name = stem.numbered k ∧ r' = r.drawNumbered stem k := by
  obtain ⟨k, hleast, -⟩ := exists_isLeast_freeFrom r stem n
  rw [search_counter_eq hgen hleast] at h
  split at h
  · cases h
  · cases h
    exact ⟨k, hleast, rfl, rfl⟩

/-- A counter never gives up. -/
theorem fresh?_counter_eq {r : Registry} {stem : Stem} {n k : Nat}
    (hgen : r.generator = .counter stem n) (hleast : IsLeast (r.freeFrom stem n) k) :
    r.fresh? = some (stem.numbered k, r.drawNumbered stem k) := by
  obtain ⟨free, hfree, hle⟩ := exists_mem_freeFrom r stem n
  have hk : k ≤ free := hleast.2 hfree
  have hcard : r.takenNames.card ≤ r.reserved.length + r.introduced.length := by
    rw [← List.length_append]
    exact List.toFinset_card_le _
  rw [fresh?, search_counter_eq hgen hleast, if_neg]
  unfold searchLimit
  omega

/-! ## Runs of a counter -/

/-- A request draws from the counter or leaves it alone. -/
theorem Answers.search_or_generator_eq {r r' : Registry} {request : Request} {reply : Reply}
    (h : r.Answers request reply r') :
    (∃ limit name, r.search limit = some (name, r') ∧
        drawnName? (request, reply) = some name) ∨
      r'.generator = r.generator ∧ drawnName? (request, reply) = none := by
  cases h with
  | @search limit name _ h => exact .inl ⟨limit, name, h, rfl⟩
  | plain h =>
      cases request with
      | reserve name =>
          cases h
          refine .inr ⟨?_, rfl⟩
          unfold reserve
          split <;> rfl
      | introduce name =>
          cases h
          exact .inr ⟨generator_introduce r name, rfl⟩
      | taken name =>
          cases h
          exact .inr ⟨rfl, rfl⟩
      | names =>
          cases h
          exact .inr ⟨rfl, rfl⟩
      | fresh =>
          obtain ⟨⟨name, r₁⟩, hfresh, h⟩ := Option.bind_eq_some_iff.1 h
          cases h
          exact .inl ⟨r.searchLimit, name, hfresh, rfl⟩

/-- After the requests and answers `past` the counter stands at `n`, and the numbers drawn so far
increase and lie below `n`. -/
structure CountsTo (stem : Stem) (past : List (Request × Reply)) (r : Registry) (n : Nat) :
    Prop where
  generator : r.generator = .counter stem n
  drawn : ∃ numbers : List Nat, drawnNames past = numbers.map stem.numbered ∧
    numbers.Pairwise (· < ·) ∧ ∀ k ∈ numbers, k < n

theorem CountsTo.answers {stem : Stem} {past : List (Request × Reply)} {r r' : Registry} {n : Nat}
    {request : Request} {reply : Reply} (h : CountsTo stem past r n)
    (hnext : r.Answers request reply r') :
    ∃ m, CountsTo stem (past ++ [(request, reply)]) r' m := by
  obtain ⟨numbers, hnames, hincreasing, hbelow⟩ := h.drawn
  rcases hnext.search_or_generator_eq with ⟨limit, name, hsearch, hname⟩ | ⟨hsame, hname⟩
  · obtain ⟨k, ⟨⟨hle, -⟩, -⟩, rfl, rfl⟩ := exists_eq_of_search_counter h.generator hsearch
    have hlast : ∀ i ∈ numbers, i < k := fun i hi => Nat.lt_of_lt_of_le (hbelow i hi) hle
    refine ⟨k + 1, rfl, numbers ++ [k], ?_, ?_, ?_⟩
    · rw [drawnNames_concat, hname, hnames, List.map_append]
      rfl
    · rw [List.pairwise_append]
      refine ⟨hincreasing, List.pairwise_singleton _ _, ?_⟩
      simpa using hlast
    · rw [List.forall_mem_append, List.forall_mem_singleton]
      exact ⟨fun i hi => by have := hlast i hi; omega, by omega⟩
  · refine ⟨n, hsame.trans h.generator, numbers, ?_, hincreasing, hbelow⟩
    rw [drawnNames_concat, hname, hnames, Option.toList_none, List.append_nil]

theorem Runs.exists_countsTo {supply : Supply} {stem : Stem} {past : List (Request × Reply)}
    {r : Registry} (h : (ofStrategy supply (.counter stem)).Runs past r) :
    ∃ n, CountsTo stem past r n := by
  induction h with
  | nil => exact ⟨0, rfl, [], rfl, List.Pairwise.nil, by simp⟩
  | snoc _ hnext ih =>
      obtain ⟨n, hn⟩ := ih
      exact hn.answers hnext

/-- After any run of a registry with a counter, the counter stands at some number `n`.  A draw tries
the candidates from `n` up to the least number `k` whose name is not taken, which are at most one
more than there are taken names.  It always returns: the name with number `k`, which is added to the
declared names and to the drawn ones, with the counter at `k + 1` and nothing else changed.  The
numbers of the names drawn so far increase strictly. -/
theorem draws_least_free {supply : Supply} {stem : Stem} {past : List (Request × Reply)}
    {r : Registry} (h : (ofStrategy supply (.counter stem)).Runs past r) :
    ∃ n, r.generator = .counter stem n ∧
      (∃ k, IsLeast {j | n ≤ j ∧ r.isTaken (stem.text ++ toString j) = false} k ∧
        (k - n) + 1 ≤ r.takenNames.card + 1 ∧
        ∃ name r', name = stem.text ++ toString k ∧
          r' = { r with
            introduced := r.introduced ++ [name]
            drawn := r.drawn ++ [name]
            generator := .counter stem (k + 1) } ∧
          (∀ limit, r.search limit = if (k - n) + 1 ≤ limit then some (name, r') else none) ∧
          r.fresh? = some (name, r')) ∧
      ∃ numbers : List Nat, drawnNames past = numbers.map (stem.text ++ toString ·) ∧
        numbers.Pairwise (· < ·) := by
  obtain ⟨n, hgen, numbers, hnames, hincreasing, -⟩ := h.exists_countsTo
  obtain ⟨k, hleast, hle⟩ := exists_isLeast_freeFrom r stem n
  refine ⟨n, hgen, ⟨k, hleast, by omega, _, _, rfl, rfl, ?_, fresh?_counter_eq hgen hleast⟩,
    numbers, hnames, hincreasing⟩
  intro limit
  rw [search_counter_eq hgen hleast]
  split
  · rw [if_neg (by omega)]
  · rw [if_pos (by omega)]
    rfl

/-- Numbers 2 and 3 are taken, one by a declaration and one by a late reservation, when the second
name is drawn. -/
theorem draws_least_free_behind_taken :
    ∃ r, (ofStrategy (.ofSeed 0) .standard).Runs
        [(.reserve "_t0", .done), (.fresh, .name "_t1"), (.introduce "_t2", .verdict true),
          (.reserve "_t3", .done)] r ∧
      r.search 2 = none ∧
      ∃ r', r.search 3 = some ("_t4", r') ∧ r.fresh? = some ("_t4", r') ∧
        r'.introduced = ["_t1", "_t2", "_t4"] ∧ r'.generator = .counter .standard 5 := by
  have hrun : ((ofStrategy (.ofSeed 0) .standard).run?
      [.reserve "_t0", .fresh, .introduce "_t2", .reserve "_t3"]).map (fun result =>
        (result.1, result.2.introduced, result.2.fresh?.map Prod.fst,
          (result.2.search 2).isNone, (result.2.search 3).isSome)) =
      some ([.done, .name "_t1", .verdict true, .done], ["_t1", "_t2"], some "_t4",
        true, true) := by
    decide +kernel
  obtain ⟨⟨replies, r⟩, hrun, heq⟩ := Option.map_eq_some_iff.1 hrun
  simp only [Prod.mk.injEq, Option.isNone_iff_eq_none] at heq
  obtain ⟨rfl, hnames, hfirst, htwo, hthree⟩ := heq
  have hruns := runs_of_run? hrun
  obtain ⟨n, -, ⟨k, -, -, _, r', rfl, rfl, hsearch, hfresh⟩, -⟩ := draws_least_free hruns
  rw [hfresh, Option.map_some, Option.some.injEq] at hfirst
  obtain rfl : k = 4 := Stem.standard.numbered_injective hfirst
  refine ⟨r, hruns, htwo, _, ?_, hfresh, ?_, rfl⟩
  · rw [hsearch] at hthree ⊢
    split at hthree
    · rw [if_pos ‹_›]
      rfl
    · cases hthree
  · rw [hnames]
    rfl

end LijsCompiler.Registry
