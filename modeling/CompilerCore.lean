import CompilerCore.Main
import CompilerCore.Proofs.Analysis.Order
import CompilerCore.Proofs.Analysis.Stalls
import CompilerCore.Proofs.Analysis.Targets
import CompilerCore.Proofs.Analysis.Templates
import CompilerCore.Proofs.Code.Cleanup
import CompilerCore.Proofs.Code.Formed
import CompilerCore.Proofs.Code.Operands
import CompilerCore.Proofs.Lowering.Excluded
import CompilerCore.Proofs.Lowering.Preservation
import CompilerCore.Proofs.Lowering.Ranges
import CompilerCore.Proofs.Lowering.Settled
import CompilerCore.Proofs.Machine.Agreement
import CompilerCore.Proofs.Machine.Exact
import CompilerCore.Proofs.Machine.Memory
import CompilerCore.Proofs.Scopes
import CompilerCore.Proofs.Types.Constants
import CompilerCore.Proofs.Types.Offsets
import CompilerCore.Proofs.Types.Variants
import CompilerCore.Text.Listing
import CompilerCore.Text.NameTable
