import CmTrace.Tail.Reader

/-!
# What a tail reader is made of

The state that follows one file: where it stands in the bytes, what it holds of
a line, of a logical record and of the record that opening the file left last,
and the reset it owes.  Line numbers are natural numbers, as in `Tail.Reader`,
and instants are counted in milliseconds.
-/

namespace CmTrace
namespace Watcher

open Text Log

inductive ParserKind where
  | ccm | simple | timestamped | plain | iisW3c | windowsFirewall | panther | cbs | dism
  | reportingEvents | msi | psadtLegacy | intuneMacOs | intuneDeviceInventory | dhcp | burn
  | patchMyPcDetection | registry | secureBootLog | dnsDebug | dnsAudit | cmtLog | companyPortal
  deriving DecidableEq, Repr

inductive RecordFraming where
  | physicalLine
  | logicalRecord
  deriving DecidableEq, Repr

inductive ParserSpecialization where
  | ime
  | intuneDeviceInventoryHarvester
  | intuneDeviceInventoryAdaptor
  | intuneDeviceInventoryRotationFailure
  deriving DecidableEq, Repr

inductive DeviceInventoryLogDialect where
  | harvester
  | inventoryAdaptor
  | rotationFailure
  deriving DecidableEq, Repr

/-- The selection of a parser, as far as reading a file depends on it. -/
structure ResolvedParser where
  parser : ParserKind
  recordFraming : RecordFraming
  specialization : Option ParserSpecialization := none
  deriving DecidableEq, Repr

def inventoryLogicalDialect (selection : ResolvedParser) : Option DeviceInventoryLogDialect :=
  if selection.recordFraming = .logicalRecord then
    match selection.specialization with
    | some .intuneDeviceInventoryHarvester => some .harvester
    | some .intuneDeviceInventoryAdaptor => some .inventoryAdaptor
    | some .intuneDeviceInventoryRotationFailure => some .rotationFailure
    | _ => none
  else none

def companyPortalLogicalFraming (selection : ResolvedParser) : Bool :=
  decide (selection.recordFraming = .logicalRecord ∧ selection.specialization = none ∧
    selection.parser = .companyPortal)

/-- Selections whose last record is continued after opening the file. -/
def supportsParser (selection : ResolvedParser) : Bool :=
  decide (selection.parser = .companyPortal ∧ selection.recordFraming = .logicalRecord)

def ResolvedParser.companyPortal : ResolvedParser :=
  { parser := .companyPortal, recordFraming := .logicalRecord }

/-! ## Batches -/

/-- Where an error code stands in a message, in UTF-16 units; what the table of
codes says of it is left out. -/
structure ErrorCodeSpan where
  start : Nat
  stop : Nat
  deriving DecidableEq, Repr

/-- Text appended to a row that was rendered when the file was opened. -/
structure TailEntryAmendment where
  entryId : Nat
  entryLineNumber : Nat
  continuationStartLine : Nat
  continuationEndLine : Nat
  messageUtf16Start : Nat
  messageSuffix : Text
  errorCodeSpans : List ErrorCodeSpan
  deriving DecidableEq, Repr

structure TailBatch where
  entries : List LogEntry := []
  amendments : List TailEntryAmendment := []
  parseErrors : Nat := 0
  /-- The last line the batch read. -/
  observedThroughLine : Option Nat := none
  /-- The rows shown before are stale. -/
  reset : Bool := false
  deriving DecidableEq, Repr

namespace TailBatch

def append (a b : TailBatch) : TailBatch :=
  { entries             := a.entries ++ b.entries
    amendments          := a.amendments ++ b.amendments
    parseErrors         := a.parseErrors + b.parseErrors
    observedThroughLine := Option.merge max a.observedThroughLine b.observedThroughLine
    reset               := a.reset || b.reset }

theorem empty_append (b : TailBatch) : append {} b = b := by
  obtain ⟨_, _, _, observed, _⟩ := b
  cases observed <;> simp [append]

end TailBatch

/-! ## Pending records -/

/-- The last record of the opened file, with what has been appended to it. -/
structure PendingInitialLogicalRecord where
  entryId : Nat
  entryLineNumber : Nat
  nextContinuationLine : Nat
  messageUtf16Len : Nat
  retainedSuffixBytes : Nat := 0
  pendingSuffix : Text := []
  pendingStartLine : Option Nat := none
  pendingEndLine : Option Nat := none
  lastUpdated : Nat
  capped : Bool := false
  capReported : Bool := false
  deriving DecidableEq, Repr

structure PendingLogicalRecord where
  content : Text
  lastUpdated : Nat
  parserSelection : ResolvedParser
  deriving DecidableEq, Repr

structure FramedLogicalRecord where
  content : Text
  /-- The lines the position advances by. -/
  physicalLines : Nat
  deriving DecidableEq, Repr

/-- A record that ends at a record boundary owns its last line. -/
def FramedLogicalRecord.complete (content : Text) : FramedLogicalRecord :=
  { content := content, physicalLines := content.count '\n' + 1 }

structure LogicalRecordFramingResult where
  completedRecords : List FramedLogicalRecord := []
  pendingRecord : Option Text := none
  overflowCount : Nat := 0
  deriving DecidableEq, Repr

inductive LogicalRecordSegment where
  | lineStart (text : Text)
  | lineContinuation (text : Text)
  deriving DecidableEq, Repr

inductive PendingReset where
  | truncated
  | replaced
  deriving DecidableEq, Repr

inductive FileEncoding where
  | utf8
  | utf16Le
  | utf16Be
  deriving DecidableEq, Repr

structure TailReader (I : Type) where
  byteOffset : Nat
  fileIdentity : Option I := none
  pendingReset : Option PendingReset := none
  parserSelection : ResolvedParser
  nextId : Nat
  nextLine : Nat
  /-- Text of a line or record that has not ended. -/
  pendingFragment : Text := []
  pendingFragmentSelection : Option (ResolvedParser × Nat) := none
  inventoryLineContinuation : Bool := false
  pendingLogicalRecord : Option PendingLogicalRecord := none
  pendingInitialLogicalRecord : Option PendingInitialLogicalRecord := none
  discardingCappedInitialLine : Bool := false
  encoding : FileEncoding := .utf8
  /-- Half a UTF-16 unit. -/
  pendingByte : Option UInt8 := none
  /-- A UTF-8 scalar that is not all there. -/
  pendingUtf8Bytes : List UInt8 := []
  pendingUtf8Selection : Option ResolvedParser := none
  deriving DecidableEq

def logicalRecordDebounce : Nat := 250

def maxPendingLogicalRecordBytes : Nat := 1024 * 1024

/-- What the reader takes from the parsers; nothing is assumed of it. -/
structure Parsers where
  parseLinesWithSelection : ResolvedParser → List Text → List LogEntry × Nat
  parseContentWithSelection : ResolvedParser → Text → List LogEntry × Nat
  detectErrorCodeSpans : Text → List ErrorCodeSpan
  completeImePrefixLen : Text → Nat
  /-- A header of the Company Portal. -/
  looksLikeRecordStart : Text → Bool
  frameLogicalRecords : DeviceInventoryLogDialect → Option Text → List LogicalRecordSegment →
    LogicalRecordFramingResult
  parseFramedRecords : List FramedLogicalRecord → DeviceInventoryLogDialect → List LogEntry × Nat

end Watcher
end CmTrace
