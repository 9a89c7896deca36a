import CilRepair.Assembler
import CilRepair.Main
import CilRepair.Module.References
import CilRepair.Proofs.BranchWidths
import CilRepair.Proofs.RepairEvaluation
import CilRepair.Proofs.NopRemoval
import CilRepair.Proofs.FoldSites
import CilRepair.Proofs.FoldEvaluation
import CilRepair.Proofs.Edits
import CilRepair.Proofs.ModuleBodies
import CilRepair.Proofs.PipelineInvariants
import CilRepair.Proofs.StageLayout
import CilRepair.Proofs.PipelineLifecycle
import CilRepair.Proofs.Protection
import CilRepair.Proofs.FreshNames
import CilRepair.Proofs.DigitText
import CilRepair.Proofs.TextBytes
import CilRepair.Proofs.JsonTokens
import CilRepair.Proofs.JsonText
import CilRepair.Proofs.FlagText
import CilRepair.Proofs.ImageFields
import CilRepair.Proofs.ImageRereading
import CilRepair.Proofs.ImageRoundTrip
import CilRepair.Proofs.FloatRounding
import CilRepair.Proofs.ImageReading
import CilRepair.Proofs.FloatReading
import CilRepair.Proofs.FloatWriting
import CilRepair.Proofs.ImageReloading
import CilRepair.Proofs.ReferencePlaces
import CilRepair.Proofs.NewNames
import CilRepair.Proofs.TypeReferences
import CilRepair.Proofs.Identities
import CilRepair.Proofs.ControlFlow
import CilRepair.Proofs.MaxStack
import CilRepair.Proofs.RepairSpecification
import CilRepair.Proofs.BranchOperands
import CilRepair.Proofs.ReachedTargets
import CilRepair.Proofs.CanonicalLayout
import CilRepair.Proofs.ThinnedRanges
import CilRepair.Proofs.PaddedHandlers
import CilRepair.Proofs.FoldFixpoint
import CilRepair.Proofs.StoredLocals
import CilRepair.Proofs.RunDepths
import CilRepair.Proofs.AssembledBodies
import CilRepair.Proofs.Replacement
import CilRepair.Proofs.DeadSlots
import CilRepair.Proofs.ReplaceableLiterals
import CilRepair.Proofs.RenameFrame
import CilRepair.Proofs.AtomicOutput
import CilRepair.Proofs.StageSelection
import CilRepair.Proofs.Substitution
import CilRepair.Proofs.FreeNumbers
