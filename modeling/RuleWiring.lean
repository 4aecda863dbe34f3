import RuleWiring.Analysis.Codec
import RuleWiring.Analysis.Synthesis
import RuleWiring.Batch.Config
import RuleWiring.Batch.Statistics
import RuleWiring.CommandLine.Run
import RuleWiring.Compilation.Basic
import RuleWiring.Document.Codec
import RuleWiring.Files.Tree
import RuleWiring.Main
import RuleWiring.Pattern.Library
import RuleWiring.Proofs.Agreement
import RuleWiring.Proofs.Answers
import RuleWiring.Proofs.Balance
import RuleWiring.Proofs.Blocks
import RuleWiring.Proofs.BridgeRows
import RuleWiring.Proofs.Canonical
import RuleWiring.Proofs.Constructions
import RuleWiring.Proofs.Counting
import RuleWiring.Proofs.Domains
import RuleWiring.Proofs.Duplicates
import RuleWiring.Proofs.Ends
import RuleWiring.Proofs.Formulas
import RuleWiring.Proofs.Grammar
import RuleWiring.Proofs.HashConsing
import RuleWiring.Proofs.Insertion
import RuleWiring.Proofs.Interleaving
import RuleWiring.Proofs.LibraryIndex
import RuleWiring.Proofs.Lifted
import RuleWiring.Proofs.Modes
import RuleWiring.Proofs.NamedCodes
import RuleWiring.Proofs.Outputs
import RuleWiring.Proofs.Positional
import RuleWiring.Proofs.Proportions
import RuleWiring.Proofs.Provenance
import RuleWiring.Proofs.Revisited
import RuleWiring.Proofs.Settings
import RuleWiring.Proofs.Shapes
import RuleWiring.Proofs.Snapshot
import RuleWiring.Proofs.Stored
import RuleWiring.Proofs.Trials
import RuleWiring.Proofs.Verdict
import RuleWiring.Prover.Circuit
import RuleWiring.Resolution.Basic
