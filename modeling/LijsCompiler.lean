import LijsCompiler.Project
import LijsCompiler.Proofs.Compile.Labels
import LijsCompiler.Proofs.Compile.Lines
import LijsCompiler.Proofs.Compile.Numbers
import LijsCompiler.Proofs.ESTree.Encoding
import LijsCompiler.Proofs.Lexer.Composition
import LijsCompiler.Proofs.Lowering.Arrangement
import LijsCompiler.Proofs.Lowering.Checks
import LijsCompiler.Proofs.Lowering.Exports
import LijsCompiler.Proofs.Lowering.Frame
import LijsCompiler.Proofs.Lowering.LoopIndices
import LijsCompiler.Proofs.Lowering.LoopSource
import LijsCompiler.Proofs.Lowering.Misplaced
import LijsCompiler.Proofs.Lowering.Patience
import LijsCompiler.Proofs.Lowering.Results
import LijsCompiler.Proofs.Lowering.Roots
import LijsCompiler.Proofs.Lowering.Temporaries
import LijsCompiler.Proofs.Lowering.Wrapping
import LijsCompiler.Proofs.Options.Decoding
import LijsCompiler.Proofs.Parser.Conservation
import LijsCompiler.Proofs.Parser.Locality
import LijsCompiler.Proofs.Parser.MissingChecks
import LijsCompiler.Proofs.Parser.Places
import LijsCompiler.Proofs.Parser.Prefixes
import LijsCompiler.Proofs.Parser.RoundTrip
import LijsCompiler.Proofs.Registry.Counter
import LijsCompiler.Proofs.Registry.Stems
