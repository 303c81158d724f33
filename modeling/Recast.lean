import Recast.Main
import Recast.Proofs.Run.Failure
import Recast.Proofs.Run.History
import Recast.Proofs.Run.Lossless
import Recast.Proofs.Dialogue.Agreement
import Recast.Proofs.Run.Agreement
import Recast.Proofs.Run.Abreast
import Recast.Proofs.Run.Together
import Recast.Proofs.Rename.Freshness
import Recast.Proofs.Dialogue.Continuation
import Recast.Proofs.Dialogue.Growth
import Recast.Proofs.Dialogue.Eviction
import Recast.Proofs.Progress.Recorded
import Recast.Proofs.Progress.Summary
import Recast.Proofs.Settings.Order
import Recast.Proofs.Target.Importable
import Recast.Proofs.Target.Declarations
import Recast.Proofs.Text.Respelling
import Recast.Proofs.Rename.Lines
import Recast.Proofs.Rename.Words
import Recast.Proofs.Rename.Convergence
import Recast.Proofs.Rename.Balance
import Recast.Proofs.Run.Verdict
import Recast.Proofs.Run.Resumption
import Recast.Proofs.Run.Relocation
import Recast.Proofs.Source.Members
import Recast.Proofs.Run.Report
import Recast.Proofs.Repair.Best
import Recast.Proofs.Run.Retry
import Recast.Proofs.Settings.Key
import Recast.Proofs.Source.Filling
import Recast.Proofs.Source.Partition
import Recast.Proofs.Source.Nesting
import Recast.Proofs.Repair.Replacement
import Recast.Proofs.Repair.Lineage
import Recast.Proofs.Repair.Place
import Recast.Proofs.Envelope.Section
import Recast.Proofs.Run.Bundle
import Recast.Proofs.Rename.Imports
import Recast.Proofs.Run.Conversions
import Recast.Proofs.Rename.Requalification
import Recast.Proofs.Target.Grammar
import Recast.Proofs.Source.Truncation
import Recast.Proofs.Source.Separators
import Recast.Proofs.Rename.Simultaneous
