import Codemod.Main
import Codemod.Proofs.Command.Conclusion
import Codemod.Proofs.Command.Output
import Codemod.Proofs.Editor.Succession
import Codemod.Proofs.Json.Document
import Codemod.Proofs.Json.Token
import Codemod.Proofs.Preset.Removal
import Codemod.Proofs.Progress.History
import Codemod.Proofs.Regex.Reading
import Codemod.Proofs.Report.RoundTrip
import Codemod.Proofs.Rule.Leftmost
import Codemod.Proofs.Rule.Reapplication
import Codemod.Proofs.Rulebook.Extensions
import Codemod.Proofs.Rulebook.Validity
import Codemod.Proofs.Run.Coherence
import Codemod.Proofs.Run.Composition
import Codemod.Proofs.Run.Failure
import Codemod.Proofs.Run.Order
import Codemod.Proofs.Run.Simulation
import Codemod.Proofs.Scan.Extension
import Codemod.Proofs.Scan.Pruning
import Codemod.Proofs.Settings.Environment
import Codemod.Proofs.Settings.Layers
import Codemod.Proofs.Settings.Loading
import Codemod.Proofs.Settings.Notation
import Codemod.Proofs.Settings.Resolution
import Codemod.Proofs.Settings.RoundTrip
import Codemod.Rulebook.Data
