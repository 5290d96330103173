import LijsCompiler.Proofs.Lowering.Sequence
import LijsCompiler.Proofs.Parser.Lines
import LijsCompiler.Proofs.Parser.Names
import LijsCompiler.Proofs.Parser.Relocation

/-!
# Compiling line by line

The lines of a source are compiled one after the other: a source that compiles, a line break and a
second source give the two outputs in a row, with other temporaries, or the error of the second
source at its place in the whole.
-/

namespace LijsCompiler

/-- The same error in a source with `offset` more bytes in front. -/
def CompileError.shift (offset : Nat) : CompileError → CompileError
  | lex e => lex (e.shift offset)
  | parse e => parse (e.shift offset)
  | noFreshName => noFreshName

theorem parseSource_of_tokenize {source : String} {ts : List Token}
    (h : tokenize source = .ok ts) : parseSource source = (parse ts).mapError .parse := by
  unfold parseSource
  rw [h]
  dsimp only
  cases parse ts <;> rfl

theorem parseSource_of_tokenize_error {source : String} {e : LexError}
    (h : tokenize source = .error e) : parseSource source = .error (.lex e) := by
  unfold parseSource
  rw [h]

theorem parseSource_append_newline {s t : String} {program : List Node}
    (hsize : (s ++ "\n" ++ t).utf8ByteSize < UInt32.size) (h : parseSource s = .ok program) :
    parseSource (s ++ "\n" ++ t) =
      ((parseSource t).map (program ++ ·)).mapError (CompileError.shift (s.utf8ByteSize + 1)) := by
  obtain ⟨ts, htokens, hparse⟩ := parseSource_eq_ok_iff.1 h
  have hjoined := tokenize_append_newline htokens t
  cases ht : tokenize t with
  | error e =>
      rw [ht] at hjoined
      rw [parseSource_of_tokenize_error hjoined, parseSource_of_tokenize_error ht]
      rfl
  | ok us =>
      have hmoves : ∀ u ∈ us, u.span.MovesBy (s.utf8ByteSize + 1) := by
        apply Token.movesBy_of_lexes (Token.tokenizeFrom_eq_ok_iff.1 ht)
        have hone : "\n".utf8ByteSize = 1 := rfl
        rw [String.utf8ByteSize_append, String.utf8ByteSize_append, hone] at hsize
        rw [Text.byteLength_toList]
        omega
      rw [ht] at hjoined
      rw [parseSource_of_tokenize hjoined, parseSource_of_tokenize ht,
        parse_append_lineBreak rfl hparse, parse_map_shift hmoves]
      cases parse us <;> rfl

section

variable {c : Configuration} {stem : Stem} {supply : Supply}

/-- With a counter only the tokens or the tree of a source can be at fault. -/
theorem compile_eq_error_iff {source : String} {e : CompileError}
    (hcounter : c.lowering.temporaries = .counter stem) :
    compile c supply source = .error e ↔ parseSource source = .error e := by
  unfold compile compileTree
  cases parseSource source with
  | error e' => simp [bind, Except.bind]
  | ok program =>
      obtain ⟨lowered, hlowered⟩ :=
        Lowering.exists_lowerProgram_of_counter hcounter supply program
      simp [bind, Except.bind, hlowered]

/-- Let a source compile, with a counter for temporaries.  If a second source compiles, so do the
two with a line break between them, and the output is that of the first and that of the second, both
with new temporaries, one after the other.  If the second does not compile, the two fail with its
error, moved behind the first and the line break. -/
theorem compile_append_newline {s t : String} {first : Lowered}
    (hcounter : c.lowering.temporaries = .counter stem)
    (hsize : (s ++ "\n" ++ t).utf8ByteSize < UInt32.size) (hs : compile c supply s = .ok first) :
    (∀ second, compile c supply t = .ok second →
        ∃ joined, compile c supply (s ++ "\n" ++ t) = .ok joined ∧
          joined.warnings = first.warnings ++ second.warnings ∧
          ∃ p q first' second', parseSource s = .ok p ∧ parseSource t = .ok q ∧
            Lowering.Refills c.lowering p first first' ∧
            Lowering.Refills c.lowering q second second' ∧ first'.IsJoin second' joined) ∧
      ∀ e, compile c supply t = .error e →
        compile c supply (s ++ "\n" ++ t) = .error (e.shift (s.utf8ByteSize + 1)) := by
  obtain ⟨p, hp, hfirst⟩ := compile_eq_ok_iff.1 hs
  have hparse := parseSource_append_newline hsize hp
  constructor
  · intro second ht
    obtain ⟨q, hq, hsecond⟩ := compile_eq_ok_iff.1 ht
    obtain ⟨joined, first', second', hjoined, hrefills₁, hrefills₂, hjoin⟩ :=
      Lowering.exists_isJoin hcounter hfirst hsecond
    rw [hq] at hparse
    refine ⟨joined, compile_eq_ok_iff.2 ⟨p ++ q, hparse, hjoined⟩, ?_, p, q, first', second', hp,
      hq, hrefills₁, hrefills₂, hjoin⟩
    rw [hjoin.warnings, hrefills₁.warnings, hrefills₂.warnings]
  · intro e ht
    rw [compile_eq_error_iff hcounter] at ht ⊢
    rw [hparse, ht]
    rfl

end

/-- The second line writes the name that is drawn in the first line alone, so another one is drawn
for it.  A second line that ends too early is blamed at its end. -/
theorem compile_append_newline_candidate_written :
    ∃ c : Configuration, ∃ first second joined,
      c.lowering.temporaries = .counter ⟨"t", by decide⟩ ∧
      compile c (.ofSeed 0) "@[a](f item)" = .ok first ∧ first.names = ["t0"] ∧
      compile c (.ofSeed 0) "$t0 1" = .ok second ∧ second.names = ["t0"] ∧
      compile c (.ofSeed 0) ("@[a](f item)" ++ "\n" ++ "$t0 1") = .ok joined ∧
      joined.names = ["t1", "t0"] ∧ joined.warnings = first.warnings ++ second.warnings ∧
      (∃ p q first' second', parseSource "@[a](f item)" = .ok p ∧ parseSource "$t0 1" = .ok q ∧
        Lowering.Refills c.lowering p first first' ∧
        Lowering.Refills c.lowering q second second' ∧ first'.IsJoin second' joined) ∧
      compile c (.ofSeed 0) ("@[a](f item)" ++ "\n" ++ "$t0") =
        .error (.parse ⟨.unexpectedEnd .value, ⟨16, 16⟩⟩) := by
  let c : Configuration := ⟨⟨"require", "module.exports", .counter ⟨"t", by decide⟩⟩⟩
  have hfirst : (compile c (.ofSeed 0) "@[a](f item)").toOption.map (·.names) = some ["t0"] := by
    decide +kernel
  have hsecond : (compile c (.ofSeed 0) "$t0 1").toOption.map (·.names) = some ["t0"] := by
    decide +kernel
  have hnames : (compile c (.ofSeed 0) ("@[a](f item)" ++ "\n" ++ "$t0 1")).toOption.map (·.names) =
      some ["t1", "t0"] := by
    decide +kernel
  have herror : (compile c (.ofSeed 0) "$t0").map (fun _ => ()) =
      .error (.parse ⟨.unexpectedEnd .value, ⟨3, 3⟩⟩) := by
    decide +kernel
  obtain ⟨first, hfirst, hnames₁⟩ := Option.map_eq_some_iff.1 hfirst
  obtain ⟨second, hsecond, hnames₂⟩ := Option.map_eq_some_iff.1 hsecond
  have hfirst := eq_ok_of_toOption_eq_some hfirst
  have hsecond := eq_ok_of_toOption_eq_some hsecond
  obtain ⟨joined, hjoined, hwarnings, hparts⟩ :=
    (compile_append_newline rfl (by decide) hfirst).1 second hsecond
  rw [hjoined] at hnames
  refine ⟨c, first, second, joined, rfl, hfirst, hnames₁, hsecond, hnames₂, hjoined,
    Option.some.inj hnames, hwarnings, hparts, ?_⟩
  apply (compile_append_newline rfl (by decide) hfirst).2 (.parse ⟨.unexpectedEnd .value, ⟨3, 3⟩⟩)
  cases h : compile c (.ofSeed 0) "$t0" with
  | ok lowered =>
      rw [h] at herror
      cases herror
  | error e =>
      rw [h] at herror
      cases herror
      rfl

end LijsCompiler
