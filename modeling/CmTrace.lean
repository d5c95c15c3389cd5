import CmTrace.Firewall.Decoder
import CmTrace.Firewall.Stream
import CmTrace.Firewall.Spans
import CmTrace.XPath.Semantics
import CmTrace.EventQuery.Meaning
import CmTrace.EventQuery.Budget
import CmTrace.Tail.Records
import CmTrace.Tail.Context
import CmTrace.Tail.Ccm
import CmTrace.Watcher.Decode
import CmTrace.Watcher.Utf16
import CmTrace.Watcher.Utf8
import CmTrace.Watcher.Fence
import CmTrace.Watcher.Initial
import CmTrace.Timeline.Unambiguous
import CmTrace.Timeline.Omission
import CmTrace.Timeline.Canonical
import CmTrace.Timeline.Merge
import CmTrace.EventLog.ChainModel
import CmTrace.LogStore.Aggregate
import CmTrace.LogStore.AggregateRuns
import CmTrace.MarkerStore.Durable
import CmTrace.Diagnosis.Summary
import CmTrace.EventLog.PushDown
import CmTrace.Sccm.Causal
import CmTrace.EventLog.Lossless
import CmTrace.LiveTail.Accounting
import CmTrace.Parser.ImePrefix
import CmTrace.Sccm.IntakeCanonical
import CmTrace.Export.Reservations
import CmTrace.Export.Delimited
import CmTrace.ErrorDb.Lookup
import CmTrace.ErrorDb.Mentions
import CmTrace.Redaction.Caseless
import CmTrace.Redaction.FindLiteral
import CmTrace.Timeline.SortKey
import CmTrace.Inventory.Framing
import CmTrace.Parser.ImeSpans
import CmTrace.Parser.CcmBounded
import CmTrace.XPath.Literals
import CmTrace.EventQuery.Literals
import CmTrace.Collections.Greatest
import CmTrace.Esp.Texts
import CmTrace.Esp.Processes
import CmTrace.Esp.Correlation
import CmTrace.Esp.Lineage
import CmTrace.Esp.Evidence
import CmTrace.Esp.Arrival
import CmTrace.Collections.Coalesce
import CmTrace.Archive.Coverage
import CmTrace.Archive.Parsed
import CmTrace.Archive.Batches
import CmTrace.Archive.Accounting
import CmTrace.Collections.GroupTree
import CmTrace.Js.Uri
import CmTrace.EventLog.GroupedRows
import CmTrace.Collections.Bisect
import CmTrace.LogStore.Correlated
import CmTrace.LogStore.GuidNames
import CmTrace.LogStore.GuidRuns
import CmTrace.Collections.RecentKeys
import CmTrace.LiveTail.Polling
import CmTrace.LiveTail.PollingRuns
import CmTrace.Diagnosis.Signals
import CmTrace.Diagnosis.Adapt
import CmTrace.Diagnosis.Accumulator
import CmTrace.Collections.StableRank
import CmTrace.EventLog.StoredRecords
import CmTrace.EventLog.Selection
import CmTrace.EventLog.MergedRows
import CmTrace.MarkerStore.Names
import CmTrace.MarkerStore.ThreeWaySteps
import CmTrace.MarkerStore.Additions
import CmTrace.MarkerStore.ThreeWayMerge
import CmTrace.Diagnosis.Display
import CmTrace.Diagnosis.Response
import CmTrace.Diagnosis.NoticeSize
import CmTrace.Diagnosis.Bounded
import CmTrace.Redaction.Codecs
import CmTrace.Js.Bounded
import CmTrace.Js.Glob
import CmTrace.Intune.Pairing
import CmTrace.Intune.Timeline
import CmTrace.Intune.Downloads
import CmTrace.Esp.LogPathKeys
import CmTrace.Time.LocalClock
import CmTrace.Text.Forced
import CmTrace.Parser.MsiLines
import CmTrace.Parser.MsiMoments
import CmTrace.Parser.Registry
import CmTrace.Parser.RegistryExport
import CmTrace.EventMaps.Apply
import CmTrace.Elevation.Tickets
