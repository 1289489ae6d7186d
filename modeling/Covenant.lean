import Covenant.Main
import Covenant.Proofs.Binding.Constants
import Covenant.Proofs.Binding.Inheritance
import Covenant.Proofs.Binding.Substitution
import Covenant.Proofs.Compile.Capture
import Covenant.Proofs.Compile.Closed
import Covenant.Proofs.Compile.DartClasses
import Covenant.Proofs.Compile.DeclarationOrder
import Covenant.Proofs.Compile.Failures
import Covenant.Proofs.Compile.Interchange
import Covenant.Proofs.Config.Backups
import Covenant.Proofs.Emit.HiddenNames
import Covenant.Proofs.Extract.Constraints
import Covenant.Proofs.Extract.Enumerations
import Covenant.Proofs.Extract.Namespaces
import Covenant.Proofs.Extract.References
import Covenant.Proofs.Naming.Exclusion
import Covenant.Proofs.Output.Comparison
import Covenant.Proofs.Watch.Delivery
