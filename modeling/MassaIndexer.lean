import MassaIndexer.Theory.Sha256
import MassaIndexer.Theory.Base58
import MassaIndexer.Theory.Runs
import MassaIndexer.Theory.KeyedTable
import MassaIndexer.Writer.Step
import MassaIndexer.Peer.Service
import MassaIndexer.Laws.FinalVerdict
import MassaIndexer.Laws.ArbiterSoundness
import MassaIndexer.Laws.ForkUnwinding
import MassaIndexer.Laws.Oscillation
import MassaIndexer.Laws.BodyStored
import MassaIndexer.Laws.HeadMarker
import MassaIndexer.Laws.Provenance
import MassaIndexer.Laws.LegacyPrecedence
import MassaIndexer.Laws.DefiniteVerdict
import MassaIndexer.Laws.TerminalStates
import MassaIndexer.Laws.TransferVerdicts
import MassaIndexer.Laws.AuthoritativeTransfers
import MassaIndexer.Laws.Attribution
import MassaIndexer.Laws.FinalFrame
import MassaIndexer.Laws.RepairResidue
import MassaIndexer.Laws.PatchScope
import MassaIndexer.Laws.StatusCoherence
import MassaIndexer.Laws.StorageRoundTrip
import MassaIndexer.Laws.SseResume
import MassaIndexer.Laws.TwoLanes
import MassaIndexer.Laws.SelfHealing
import MassaIndexer.Laws.SessionRoutes
import MassaIndexer.Laws.SweepScope
import MassaIndexer.Laws.SweepCompleteness
import MassaIndexer.Laws.RepairAdditive
import MassaIndexer.Laws.CheckpointSafety
import MassaIndexer.Laws.IndexExactness
import MassaIndexer.Laws.Pagination
import MassaIndexer.Laws.IndexRebuild
import MassaIndexer.Laws.KeyIsolation
import MassaIndexer.Laws.BackfillWindow
import MassaIndexer.Laws.FinalStream
import MassaIndexer.Laws.LegacyNumbering
import MassaIndexer.Laws.LegacyAttribution
import MassaIndexer.Laws.BlockAtomicity
import MassaIndexer.Laws.DenunciationSites
import MassaIndexer.Laws.InclusionSites
import MassaIndexer.Laws.BlockPagers
import MassaIndexer.Laws.RecentFeeds
import MassaIndexer.Laws.LegacyDecoders
import MassaIndexer.Laws.ArchiveCompleteness
import MassaIndexer.Laws.ImportExactness
import MassaIndexer.Laws.Reconstruction
import MassaIndexer.Laws.PullWindows
import MassaIndexer.Laws.PeriodOverflow
import MassaIndexer.Laws.LebReaders
import MassaIndexer.Laws.ChartCoverage
import MassaIndexer.Laws.VerifyExactness
import MassaIndexer.Laws.TransferUnions
import MassaIndexer.Laws.ExportRanges
import MassaIndexer.Laws.NativeAmounts
import MassaIndexer.Laws.SlotTimes
import MassaIndexer.Laws.PointInTime
import MassaIndexer.Laws.RequestDates
import MassaIndexer.Laws.SseRing
import MassaIndexer.Laws.WasmExactness
import MassaIndexer.Laws.EventIdempotence
import MassaIndexer.Laws.SessionCalls
import MassaIndexer.Laws.LiveFeed
import MassaIndexer.Laws.LiveCache
import MassaIndexer.Laws.CrossLane
import MassaIndexer.Laws.StreamDelivery
import MassaIndexer.Theory.Backoff
import MassaIndexer.Laws.Replication
import MassaIndexer.Laws.SearchHits
