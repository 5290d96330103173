import LijsCompiler.Proofs.Compile.Lines
import LijsCompiler.Proofs.Lexer.Faults
import LijsCompiler.Proofs.Parser.Blame

/-!
# Labels point into the source

The spans of tokens begin and end between characters, and so does what is made of them: the join of
two spans and the empty span at the end of one.  A fault of the text covers one character or all
that follows an opening delimiter.  So the label of every error points to a part of the source that
can be cut out of it (`labels_of_compile`).

A position is kept modulo `2 ^ 32`, which loses nothing as long as the source is shorter than that.
-/

namespace LijsCompiler

namespace Text

/-- The text before and the text after a byte, if the byte is not inside a character. -/
def cutAtByte? : Nat → List Char → Option (List Char × List Char)
  | 0, cs => some ([], cs)
  | _ + 1, [] => none
  | n + 1, c :: cs =>
    if c.utf8Size ≤ n + 1 then
      (cutAtByte? (n + 1 - c.utf8Size) cs).map fun (before, after) => (c :: before, after)
    else
      none

theorem cutAtByte?_append (before after : List Char) :
    cutAtByte? (byteLength before) (before ++ after) = some (before, after) := by
  induction before with
  | nil =>
      rw [byteLength_nil, cutAtByte?]
      rfl
  | cons c before ih =>
      have hpos := c.utf8Size_pos
      obtain ⟨n, hn⟩ : ∃ n, byteLength (c :: before) = n + 1 :=
        Nat.exists_eq_add_one_of_ne_zero (by rw [byteLength_cons]; omega)
      have hrest : n + 1 - c.utf8Size = byteLength before := by
        rw [byteLength_cons] at hn
        omega
      have hfits : c.utf8Size ≤ n + 1 := by
        rw [byteLength_cons] at hn
        omega
      rw [hn, List.cons_append, cutAtByte?, if_pos hfits, hrest, ih]
      rfl

theorem eq_append_of_cutAtByte? {n : Nat} {cs before after : List Char}
    (h : cutAtByte? n cs = some (before, after)) : cs = before ++ after ∧ n = byteLength before := by
  fun_induction cutAtByte? n cs generalizing before with
  | case1 cs =>
      cases h
      exact ⟨rfl, rfl⟩
  | case2 => cases h
  | case3 n c cs hfits ih =>
      simp only [Option.map_eq_some_iff, Prod.mk.injEq, Prod.exists] at h
      obtain ⟨front, rest, hcut, rfl, rfl⟩ := h
      obtain ⟨rfl, hn⟩ := ih hcut
      refine ⟨rfl, ?_⟩
      rw [byteLength_cons, ← hn]
      omega
  | case4 => cases h

theorem cutAtByte?_eq_some_iff {n : Nat} {cs before after : List Char} :
    cutAtByte? n cs = some (before, after) ↔ cs = before ++ after ∧ n = byteLength before := by
  constructor
  · exact eq_append_of_cutAtByte?
  · rintro ⟨rfl, rfl⟩
    exact cutAtByte?_append before after

theorem isValid_iff {source : String} {n : Nat} :
    String.Pos.Raw.IsValid source ⟨n⟩ ↔
      ∃ before after, source.toList = before ++ after ∧ n = byteLength before := by
  rw [String.Pos.Raw.isValid_iff_exists_append]
  constructor
  · rintro ⟨before, after, rfl, hn⟩
    refine ⟨before.toList, after.toList, String.toList_append, ?_⟩
    rw [byteLength_toList]
    exact congrArg String.Pos.Raw.byteIdx hn
  · rintro ⟨before, after, hsource, rfl⟩
    refine ⟨String.ofList before, String.ofList after, ?_, ?_⟩
    · rw [← String.toList_inj, String.toList_append, String.toList_ofList, String.toList_ofList,
        hsource]
    · rw [String.rawEndPos, ← byteLength_toList, String.toList_ofList]

end Text

namespace Span

/-- The text of a span, if it begins and ends between characters of the source, in this order. -/
def slice? (source : String) (s : Span) : Option String := do
  let (front, _) ← Text.cutAtByte? s.stop.toNat source.toList
  let (_, text) ← Text.cutAtByte? s.start.toNat front
  return String.ofList text

/-- The span lies in the source, between characters, and its length is the difference of its
ends. -/
structure PointsInto (source : String) (s : Span) : Prop where
  length : s.start.toNat + s.length.toNat = s.stop.toNat
  inside : s.start.toNat + s.length.toNat ≤ source.utf8ByteSize
  start : String.Pos.Raw.IsValid source ⟨s.start.toNat⟩
  stop : String.Pos.Raw.IsValid source ⟨s.start.toNat + s.length.toNat⟩

variable {source : String} {s a b : Span}

theorem slice?_eq_some_iff {text : List Char} :
    s.slice? source = some (String.ofList text) ↔
      ∃ before after, source.toList = before ++ text ++ after ∧
        s.start.toNat = Text.byteLength before ∧
        s.stop.toNat = Text.byteLength (before ++ text) := by
  constructor
  · intro h
    obtain ⟨⟨front, after⟩, hfront, h⟩ := Option.bind_eq_some_iff.1 h
    obtain ⟨⟨before, found⟩, hbefore, h⟩ := Option.bind_eq_some_iff.1 h
    obtain rfl : found = text := String.ofList_injective (Option.some.inj h)
    obtain ⟨hsource, hstop⟩ := Text.cutAtByte?_eq_some_iff.1 hfront
    obtain ⟨rfl, hstart⟩ := Text.cutAtByte?_eq_some_iff.1 hbefore
    exact ⟨before, after, hsource, hstart, hstop⟩
  · rintro ⟨before, after, hsource, hstart, hstop⟩
    have hfront := Text.cutAtByte?_eq_some_iff.2 ⟨hsource, hstop⟩
    have hbefore : Text.cutAtByte? s.start.toNat (before ++ text) = some (before, text) :=
      Text.cutAtByte?_eq_some_iff.2 ⟨rfl, hstart⟩
    simp [slice?, hfront, hbefore]

theorem pointsInto_of_le (hle : s.start ≤ s.stop)
    (hstart : String.Pos.Raw.IsValid source ⟨s.start.toNat⟩)
    (hstop : String.Pos.Raw.IsValid source ⟨s.stop.toNat⟩) : s.PointsInto source := by
  have hlength : s.start.toNat + s.length.toNat = s.stop.toNat := by
    rw [length, UInt32.toNat_sub_of_le _ _ hle]
    have := UInt32.le_iff_toNat_le.1 hle
    omega
  refine ⟨hlength, ?_, hstart, ?_⟩
  · rw [hlength]
    exact hstop.le_utf8ByteSize
  · rwa [hlength]

namespace PointsInto

theorem le (h : s.PointsInto source) : s.start ≤ s.stop := by
  have hlength := h.length
  rw [UInt32.le_iff_toNat_le]
  omega

theorem isValid_stop (h : s.PointsInto source) :
    String.Pos.Raw.IsValid source ⟨s.stop.toNat⟩ := by
  have hstop := h.stop
  rwa [h.length] at hstop

theorem join (ha : a.PointsInto source) (hb : b.PointsInto source) :
    (a.join b).PointsInto source := by
  have hle := UInt32.le_iff_toNat_le.1 ha.le
  -- each end of the join is an end of one of the two, and the join covers the first
  have hstart : ((a.join b).start = a.start ∨ (a.join b).start = b.start) ∧
      (a.join b).start.toNat ≤ a.start.toNat := by
    by_cases h : a.start ≤ b.start
    · have heq : (a.join b).start = a.start := if_pos h
      exact ⟨.inl heq, Nat.le_of_eq (congrArg UInt32.toNat heq)⟩
    · have heq : (a.join b).start = b.start := if_neg h
      rw [UInt32.le_iff_toNat_le] at h
      exact ⟨.inr heq, by rw [heq]; omega⟩
  have hstop : ((a.join b).stop = a.stop ∨ (a.join b).stop = b.stop) ∧
      a.stop.toNat ≤ (a.join b).stop.toNat := by
    by_cases h : a.stop ≤ b.stop
    · have heq : (a.join b).stop = b.stop := if_pos h
      rw [UInt32.le_iff_toNat_le] at h
      exact ⟨.inr heq, by rw [heq]; exact h⟩
    · have heq : (a.join b).stop = a.stop := if_neg h
      exact ⟨.inl heq, Nat.le_of_eq (congrArg UInt32.toNat heq.symm)⟩
  apply pointsInto_of_le
  · rw [UInt32.le_iff_toNat_le]
    omega
  · rcases hstart.1 with heq | heq
    · rw [heq]
      exact ha.start
    · rw [heq]
      exact hb.start
  · rcases hstop.1 with heq | heq
    · rw [heq]
      exact ha.isValid_stop
    · rw [heq]
      exact hb.isValid_stop

theorem emptyAt_stop (h : s.PointsInto source) : (emptyAt s.stop).PointsInto source :=
  pointsInto_of_le (UInt32.le_refl _) h.isValid_stop h.isValid_stop

theorem exists_slice?_eq_some (h : s.PointsInto source) : ∃ text, s.slice? source = some text := by
  obtain ⟨before, rest, hsource, hstart⟩ := Text.isValid_iff.1 h.start
  obtain ⟨front, after, hsource', hstop⟩ := Text.isValid_iff.1 h.isValid_stop
  have hle := UInt32.le_iff_toNat_le.1 h.le
  rcases List.append_eq_append_iff.1 (hsource.symm.trans hsource') with
    ⟨text, rfl, rfl⟩ | ⟨text, rfl, rfl⟩
  · exact ⟨_, slice?_eq_some_iff.2 ⟨_, _, hsource', hstart, hstop⟩⟩
  · -- the span ends where it begins
    rw [Text.byteLength_append] at hstart
    have hcut : source.toList = front ++ [] ++ (text ++ rest) := by rw [hsource', List.append_nil]
    refine ⟨_, slice?_eq_some_iff.2 ⟨_, _, hcut, by omega, ?_⟩⟩
    rw [List.append_nil, hstop]

end PointsInto

/-- A span of characters that stand in the source points to them. -/
theorem pointsInto_ofPosition {before text after : List Char}
    (hsize : source.utf8ByteSize < UInt32.size)
    (hsource : source.toList = before ++ text ++ after) :
    (ofPosition (Text.byteLength before) (Text.byteLength text)).PointsInto source ∧
      (ofPosition (Text.byteLength before) (Text.byteLength text)).slice? source =
        some (String.ofList text) := by
  have hfits : Text.byteLength before + Text.byteLength text < UInt32.size := by
    rw [← Text.byteLength_toList, hsource, Text.byteLength_append, Text.byteLength_append] at hsize
    omega
  obtain ⟨hstart, hstop⟩ := Token.toNat_ofPosition hfits
  rw [← Text.byteLength_append] at hstop
  refine ⟨pointsInto_of_le ?_ ?_ ?_, slice?_eq_some_iff.2 ⟨_, _, hsource, hstart, hstop⟩⟩
  · rw [UInt32.le_iff_toNat_le, hstart, hstop, Text.byteLength_append]
    omega
  · rw [hstart]
    exact Text.isValid_iff.2 ⟨before, text ++ after, by rw [hsource, List.append_assoc], rfl⟩
  · rw [hstop]
    exact Text.isValid_iff.2 ⟨before ++ text, after, hsource, rfl⟩

theorem pointsInto_to_end {before text : List Char} (hsize : source.utf8ByteSize < UInt32.size)
    (hsource : source.toList = before ++ text) :
    (ofPosition (Text.byteLength before) (Text.byteLength text)).PointsInto source ∧
      (ofPosition (Text.byteLength before) (Text.byteLength text)).slice? source =
        some (String.ofList text) ∧
      (ofPosition (Text.byteLength before) (Text.byteLength text)).stop.toNat =
        source.utf8ByteSize := by
  have hcut : source.toList = before ++ text ++ [] := by rw [hsource, List.append_nil]
  have hend : Text.byteLength before + Text.byteLength text = source.utf8ByteSize := by
    rw [← Text.byteLength_append, ← hsource, Text.byteLength_toList]
  obtain ⟨hinto, hslice⟩ := pointsInto_ofPosition hsize hcut
  rw [← hend] at hsize
  exact ⟨hinto, hslice, (Token.toNat_ofPosition hsize).2.trans hend⟩

end Span

variable {source : String}

/-! ## Tokens and errors -/

theorem Token.pointsInto_of_lexes {before cs : List Char} {position : Nat} {ts : List Token}
    (hsize : source.utf8ByteSize < UInt32.size) (h : Lexes position cs ts)
    (hsource : source.toList = before ++ cs) (hposition : position = Text.byteLength before) :
    ∀ t ∈ ts, t.span.PointsInto source := by
  induction h generalizing before with
  | nil => simp
  | @space position cs ts _ ih =>
      have hnext : position + 1 = Text.byteLength (before ++ [' ']) := by
        rw [Text.byteLength_append, hposition]
        rfl
      exact ih (by rw [hsource, List.append_assoc]; rfl) hnext
  | @token position lexeme ts _ _ ih =>
      have hnext : position + Text.byteLength lexeme.text =
          Text.byteLength (before ++ lexeme.text) := by
        rw [Text.byteLength_append, hposition]
      rw [← List.append_assoc] at hsource
      rw [List.forall_mem_cons]
      refine ⟨?_, ih hsource hnext⟩
      rw [hposition]
      exact (Span.pointsInto_ofPosition hsize hsource).1

theorem pointsInto_of_tokenize {ts : List Token} (hsize : source.utf8ByteSize < UInt32.size)
    (h : tokenize source = .ok ts) : ∀ t ∈ ts, t.span.PointsInto source :=
  Token.pointsInto_of_lexes hsize (Token.tokenizeFrom_eq_ok_iff.1 h) (List.nil_append _).symm
    Text.byteLength_nil.symm

/-- The end of the tokens and all that a refusal can blame of them are in the source. -/
theorem Node.Refusal.Blames.pointsInto {ts : List Token} {r : Refusal} (h : r.Blames ts)
    (hts : ∀ t ∈ ts, t.span.PointsInto source) : (r.locate ts).span.PointsInto source := by
  cases h with
  | token ht | trivia ht => exact hts _ ht
  | whole hrest _ _ hlast =>
      exact (hts _ (hrest.mem (List.mem_cons_self ..))).join (hts _ (hrest.mem hlast))
  | ended expected =>
      unfold Refusal.locate
      cases hlast : ts.getLast? with
      | none =>
          have hzero := String.Pos.Raw.isValid_zero (s := source)
          exact Span.pointsInto_of_le (UInt32.le_refl _) hzero hzero
      | some last => exact (hts last (List.mem_of_getLast? hlast)).emptyAt_stop

/-- The part of the source that a fault of the text is about: the character at fault, or all from
an opening delimiter to the end of the source, which does not hold the closing one. -/
def LexFault.IsAbout (source : String) (s : Span) : LexFault → Prop
  | unexpectedCharacter c => s.slice? source = some (String.singleton c)
  | unterminatedString =>
    s.stop.toNat = source.utf8ByteSize ∧
      ∃ body, s.slice? source = some ("'" ++ body) ∧ '\'' ∉ body.toList
  | unterminatedComment =>
    s.stop.toNat = source.utf8ByteSize ∧
      ∃ body, s.slice? source = some ("/*" ++ body) ∧ ¬ ['*', '/'] <:+: body.toList

theorem LexError.Blames.isAbout {e : LexError} (h : e.Blames source.toList)
    (hsize : source.utf8ByteSize < UInt32.size) :
    e.span.PointsInto source ∧ e.fault.IsAbout source e.span := by
  cases h with
  | @character before after c hsource =>
      have hcut : source.toList = before ++ [c] ++ after := by simp [hsource]
      obtain ⟨hinto, hslice⟩ := Span.pointsInto_ofPosition hsize hcut
      have hsingle : String.ofList [c] = String.singleton c := by simp
      rw [hsingle] at hslice
      exact ⟨hinto, hslice⟩
  | @openString before body hsource hopen =>
      obtain ⟨hinto, hslice, hstop⟩ := Span.pointsInto_to_end hsize hsource
      have htext : String.ofList ('\'' :: body) = "'" ++ String.ofList body := by simp
      rw [htext] at hslice
      exact ⟨hinto, hstop, _, hslice, by rwa [String.toList_ofList]⟩
  | @openComment before body hsource hopen =>
      obtain ⟨hinto, hslice, hstop⟩ := Span.pointsInto_to_end hsize hsource
      have htext : String.ofList ('/' :: '*' :: body) = "/*" ++ String.ofList body := by
        simp [← String.toList_inj]
      rw [htext] at hslice
      exact ⟨hinto, hstop, _, hslice, by rwa [String.toList_ofList]⟩

/-! ## Labels -/

theorem LexError.labels_diagnostic (e : LexError) :
    ∃ text, e.diagnostic.labels = [⟨text, e.span⟩] := by
  unfold diagnostic
  split <;> exact ⟨_, rfl⟩

/-- Why a source is not compiled. -/
theorem compile_error_cases {c : Configuration} {supply : Supply} {e : CompileError}
    (h : compile c supply source = .error e) :
    (∃ fault, tokenize source = .error fault ∧ e = .lex fault) ∨
      (∃ ts fault, tokenize source = .ok ts ∧ parse ts = .error fault ∧ e = .parse fault) ∨
      e = .noFreshName := by
  unfold compile at h
  cases htokens : tokenize source with
  | error fault =>
      rw [parseSource_of_tokenize_error htokens] at h
      cases h
      exact .inl ⟨fault, rfl, rfl⟩
  | ok ts =>
      rw [parseSource_of_tokenize htokens] at h
      cases hparse : parse ts with
      | error fault =>
          rw [hparse] at h
          cases h
          exact .inr (.inl ⟨ts, fault, rfl, hparse, rfl⟩)
      | ok program =>
          rw [hparse] at h
          change compileTree c.lowering supply program = .error e at h
          unfold compileTree at h
          split at h
          · cases h
          · cases h
            exact .inr (.inr rfl)

/-- Every error of a source shorter than `2 ^ 32` bytes has one label, unless a draw was given
up.  The label points into the source, from one place between characters to another, so its text
can be cut out.  For a fault of the text this is the character at fault, or what follows an opening
delimiter up to the end of the source.  The tokens of the source, of whose spans the parser
makes all its own, point into it as well. -/
theorem labels_of_compile {c : Configuration} {supply : Supply} {e : CompileError}
    (hsize : source.utf8ByteSize < UInt32.size) (h : compile c supply source = .error e) :
    (e ≠ .noFreshName → ∃ label, e.diagnostic.labels = [label]) ∧
      (∀ label ∈ e.diagnostic.labels,
        label.span.PointsInto source ∧ ∃ text, label.span.slice? source = some text) ∧
      (∀ fault, e = .lex fault →
        ∀ label ∈ e.diagnostic.labels, fault.fault.IsAbout source label.span) ∧
      ∀ ts, tokenize source = .ok ts → ∀ t ∈ ts, t.span.PointsInto source := by
  have hall : ∀ ts, tokenize source = .ok ts → ∀ t ∈ ts, t.span.PointsInto source :=
    fun _ => pointsInto_of_tokenize hsize
  rcases compile_error_cases h with
    ⟨fault, htokens, rfl⟩ | ⟨ts, fault, htokens, hparse, rfl⟩ | rfl
  · obtain ⟨hinto, habout⟩ := (blames_of_tokenize htokens).isAbout hsize
    obtain ⟨text, hlabels⟩ := fault.labels_diagnostic
    have hlabels : (CompileError.lex fault).diagnostic.labels = [⟨text, fault.span⟩] := hlabels
    rw [hlabels, List.forall_mem_singleton]
    refine ⟨fun _ => ⟨_, rfl⟩, ⟨hinto, hinto.exists_slice?_eq_some⟩, ?_, hall⟩
    rintro _ ⟨⟩
    rw [List.forall_mem_singleton]
    exact habout
  · obtain ⟨r, hblames, rfl⟩ := exists_blames_of_parse hparse
    have hinto := hblames.pointsInto (hall ts htokens)
    refine ⟨fun _ => ⟨_, rfl⟩, ?_, ?_, hall⟩
    · intro label hlabel
      obtain rfl := List.mem_singleton.1 hlabel
      exact ⟨hinto, hinto.exists_slice?_eq_some⟩
    · rintro _ ⟨⟩
  · refine ⟨fun hne => absurd rfl hne, ?_, ?_, hall⟩
    · simp [CompileError.diagnostic]
    · rintro _ ⟨⟩

theorem eq_error_of_map_eq_error {ε α β : Type} {result : Except ε α} {f : α → β} {e : ε}
    (h : result.map f = .error e) : result = .error e := by
  cases result with
  | error found =>
      cases h
      rfl
  | ok a => cases h

/-- A string of two bytes is open at the end of one source.  In the other an operator has three
operands, one of them of two bytes, and all bytes from its parenthesis on are blamed. -/
theorem labels_of_compile_multibyte :
    (∃ e, compile {} (.ofSeed 0) "$a 'é' 'ü" = .error e ∧
      e.diagnostic.labels = [⟨"string starts here", ⟨8, 11⟩⟩] ∧
      (⟨8, 11⟩ : Span).PointsInto "$a 'é' 'ü" ∧
      LexFault.unterminatedString.IsAbout "$a 'é' 'ü" ⟨8, 11⟩) ∧
    ∃ e, compile {} (.ofSeed 0) "(add 'é' 2 3)" = .error e ∧
      e.diagnostic.labels = [⟨"too many operands", ⟨0, 14⟩⟩] ∧
      (⟨0, 14⟩ : Span).PointsInto "(add 'é' 2 3)" ∧
      ∃ text, (⟨0, 14⟩ : Span).slice? "(add 'é' 2 3)" = some text := by
  have hopen : (compile {} (.ofSeed 0) "$a 'é' 'ü").map (fun _ => ()) =
      .error (.lex ⟨.unterminatedString, 8, ⟨8, 11⟩⟩) := by
    decide +kernel
  have hoperands : (compile {} (.ofSeed 0) "(add 'é' 2 3)").map (fun _ => ()) =
      .error (.parse ⟨.tooManyOperands .add 3, ⟨0, 14⟩⟩) := by
    decide +kernel
  have hopen := eq_error_of_map_eq_error hopen
  have hoperands := eq_error_of_map_eq_error hoperands
  obtain ⟨-, hinto, habout, -⟩ := labels_of_compile (by decide) hopen
  obtain ⟨-, hinto', -, -⟩ := labels_of_compile (by decide) hoperands
  refine ⟨⟨_, hopen, rfl, ?_, ?_⟩, ⟨_, hoperands, rfl, ?_⟩⟩
  · exact (hinto _ (List.mem_singleton.2 rfl)).1
  · exact habout _ rfl _ (List.mem_singleton.2 rfl)
  · exact hinto' _ (List.mem_singleton.2 rfl)

end LijsCompiler
