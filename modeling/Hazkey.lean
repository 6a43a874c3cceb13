import Hazkey.ServiceProgram
import Hazkey.ServiceRuns
import Hazkey.ByteFormat
import Hazkey.Text
import Hazkey.Composition
import Hazkey.Port
import Hazkey.Session
import Hazkey.RecoveryData
import Hazkey.Presentation
import Hazkey.Conversion
import Hazkey.Editing
import Hazkey.Selection
import Hazkey.Reducer
import Hazkey.Rules
import Hazkey.Publication
import Hazkey.ConversionRules
import Hazkey.Coherence
import Hazkey.Step
import Hazkey.EditingSteps
import Hazkey.SelectionSteps
import Hazkey.CommitSteps
import Hazkey.ReducerSteps
import Hazkey.ReducerRuns
import Hazkey.Framing
import Hazkey.FramingSteps
import Hazkey.Ledger
import Hazkey.RequestCache
import Hazkey.ReducerInvariant
import Hazkey.Evaluation
import Hazkey.SessionSafety
import Hazkey.Rejections
import Hazkey.Revisions
import Hazkey.Recovery
import Hazkey.Lineage
import Hazkey.SecureBoundary
import Hazkey.Retries
import Hazkey.Replacement
import Hazkey.Commits
import Hazkey.Interleaving
import Hazkey.ExecutionGate
import Hazkey.HybridState
import Hazkey.HybridConverter
import Hazkey.HybridThreads
import Hazkey.HybridSteps
import Hazkey.FenceAccounts
import Hazkey.FenceHolders
import Hazkey.FenceExclusion
import Hazkey.HybridEvaluation
import Hazkey.FenceExclusionRuns
import Hazkey.PurgeFinality
import Hazkey.PurgeFinalityRuns
import Hazkey.FenceLedger
import Hazkey.ServiceProtocol
import Hazkey.Registry
import Hazkey.RegistryBounds
import Hazkey.RegistryRuns
import Hazkey.RegistryLearning
import Hazkey.ServiceParts
import Hazkey.ClientMessages
import Hazkey.RecoveryJournal
import Hazkey.SessionClient
import Hazkey.ClientEvaluation
import Hazkey.ClientFraming
import Hazkey.ClientSecrecy
import Hazkey.ClientExecution
import Hazkey.ClientJournal
import Hazkey.ClientOperations
import Hazkey.JournalRuns
import Hazkey.JournalQueue
import Hazkey.LearningDecisions
import Hazkey.SnapshotRenderer
import Hazkey.Keymaps
import Hazkey.FirstOccurrences
import Hazkey.HybridMerge
import Hazkey.EvaluatorMerge
import Hazkey.ActionMapper
import Hazkey.HazkeyState
import Hazkey.KeyEvents
import Hazkey.KeySelection
import Hazkey.JournalContents
import Hazkey.OpenReconversion
import Hazkey.KeyReplay
import Hazkey.CompositionSurface
import Hazkey.MozcAdapter
import Hazkey.MozcAdapterRules
import Hazkey.Restoration
import Hazkey.Carets
import Hazkey.PolicyPins
import Hazkey.Admission
import Hazkey.UserDictionaryRules
import Hazkey.DictionaryMapping
import Hazkey.Timestamps
import Hazkey.Numerals
import Hazkey.TimestampRules
import Hazkey.SnapshotManager
import Hazkey.SnapshotGenerations
import Hazkey.CompositionIntegration
import Hazkey.IntegrationPins
import Hazkey.ProjectRanking
import Hazkey.ProjectRankingRules
import Hazkey.CursorMovement
import Hazkey.AlternatingRuns
import Hazkey.ProtectedLayouts
import Hazkey.BeamOrder
import Hazkey.BeamSearch
import Hazkey.CandidateExtension
import Hazkey.LengthFrames
import Hazkey.SocketFraming
import Hazkey.RequestDelivery
import Hazkey.ActionCoding
import Hazkey.ActionRoundTrip
import Hazkey.LearningSynchronization
import Hazkey.LearningFreshness
import Hazkey.EditDistance
import Hazkey.Grouping
import Hazkey.NearDuplicates
import Hazkey.NearDuplicateSearch
import Hazkey.ConversionQuality
import Hazkey.JsonText
import Hazkey.BlindPacket
import Hazkey.BlindScore
import Hazkey.PacketReading
import Hazkey.BlindPlacement
import Hazkey.PacketLoading
import Hazkey.Unblinding
import Hazkey.FrozenTsv
import Hazkey.Utf8Sequences
import Hazkey.DedupKey
import Hazkey.BlockFold
import Hazkey.Sha256
import Hazkey.ProbeDigest
import Hazkey.ProbeDigestRules
import Hazkey.LexicographicOrder
import Hazkey.DictionaryFingerprint
import Hazkey.DecimalRounding
import Hazkey.Decimals
import Hazkey.GateMetrics
import Hazkey.GateDecision
import Hazkey.GateExactness
import Hazkey.FileTree
import Hazkey.NetworkAudit
import Hazkey.NetworkCoverage
import Hazkey.TracedRuns
import Hazkey.ElfRuntime
import Hazkey.ElfLayout
import Hazkey.ElfChain
import Hazkey.ElfVersions
import Hazkey.ElfAudit
import Hazkey.Monitors
import Hazkey.MozcSidecarClient
import Hazkey.MozcSidecarDialogue
