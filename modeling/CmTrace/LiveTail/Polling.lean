import CmTrace.Collections.RecentKeys
import CmTrace.LiveTail.Batcher

/-!
# The tail that polls

Where a channel cannot be subscribed to, its newest records are queried again and
again.  What an earlier poll returned is dropped by its identity, which is remembered
for some time; a poll that comes back full says that records may be missing.
-/

namespace CmTrace
namespace LiveTail

open Text Collections

/-! ## Records -/

inductive EvtxLevel where
  | critical
  | error
  | warning
  | information
  | verbose
  deriving DecidableEq, Repr

structure EvtxField where
  name : Text
  value : Text
  deriving DecidableEq

/-- A record with what its identity is made of. -/
structure EvtxRecord where
  eventRecordId : Nat
  eventRecordIdText : Option Text
  timestamp : Text
  timestampEpoch : Int
  provider : Text
  channel : Text
  eventId : Nat
  level : EvtxLevel
  computer : Text
  message : Text
  eventData : List EvtxField
  rawXml : Text
  sourceLabel : Text
  task : Option Nat
  opcode : Option Nat
  processId : Option Nat
  threadId : Option Nat
  userSid : Option Text
  keywords : Option Text
  deriving DecidableEq

/-- What is hashed of a record: its XML, or without that its fields. -/
inductive HashedPayload where
  | xml (rawXml : Text)
  | fields (timestamp : Text) (timestampEpoch : Int) (provider channel : Text) (eventId : Nat)
      (level : EvtxLevel) (computer message sourceLabel : Text)
      (task opcode processId threadId : Option Nat) (userSid keywords : Option Text)
      (eventData : List EvtxField)
  deriving DecidableEq

def hashedPayload (record : EvtxRecord) : HashedPayload :=
  if record.rawXml = [] then
    .fields record.timestamp record.timestampEpoch record.provider record.channel record.eventId
      record.level record.computer record.message record.sourceLabel record.task record.opcode
      record.processId record.threadId record.userSid record.keywords record.eventData
  else .xml record.rawXml

abbrev PollingIdentity := Text × UInt64

def pollingRecordIdentity (hash : HashedPayload → UInt64) (record : EvtxRecord) :
    PollingIdentity :=
  (record.eventRecordIdText.getD (decimal record.eventRecordId), hash (hashedPayload record))

/-! ## Diagnostics of providers -/

inductive EvtxCoverageGapKind where
  | unsupported
  | accessDenied
  | missing
  | invalidPattern
  | limitReached
  | empty
  | file
  | chunk
  | record
  | xml
  | provider
  | limit
  | cancelled
  deriving DecidableEq, Repr

inductive ProviderMessageStage where
  | openPublisherMetadata
  | formatMessage
  deriving DecidableEq, Repr

structure ProviderMessageCoverage where
  provider : Text
  stage : ProviderMessageStage
  deriving DecidableEq

structure EvtxCoverageGap where
  source : Text
  kind : EvtxCoverageGapKind
  reason : Text
  providerMessage : Option ProviderMessageCoverage
  deriving DecidableEq

inductive ProviderGapKey where
  | native (provider : Text) (stage : ProviderMessageStage)
  | other (source : Text) (kind : EvtxCoverageGapKind) (reason : Text)
  deriving DecidableEq

def maxProviderGapDedupEntries : Nat := 1024

def formatProviderGap (gap : EvtxCoverageGap) : Text := gap.source ++ ": ".toList ++ gap.reason

section Dedup

variable (toLowercase : Text → Text)

def providerGapKey (gap : EvtxCoverageGap) : ProviderGapKey :=
  match gap.providerMessage with
  | some context => .native (toLowercase (trim context.provider)) context.stage
  | none => .other gap.source gap.kind gap.reason

/-- Keep the gaps whose key is not remembered; the oldest key of too many is forgotten. -/
def keepProviderGaps (dedup : KeyMemory ProviderGapKey) :
    List EvtxCoverageGap → KeyMemory ProviderGapKey × List EvtxCoverageGap
  | [] => (dedup, [])
  | gap :: gaps =>
    let key := providerGapKey toLowercase gap
    if key ∈ dedup.seen then keepProviderGaps dedup gaps
    else
      let inserted : KeyMemory ProviderGapKey := ⟨insert key dedup.seen, dedup.order ++ [key]⟩
      let next := keepProviderGaps (inserted.trim maxProviderGapDedupEntries 1) gaps
      (next.1, gap :: next.2)

end Dedup

/-! ## Polls -/

structure ChannelScan where
  records : List EvtxRecord
  delivered : Nat
  gaps : List Text
  providerGaps : List EvtxCoverageGap

/-- What a poll meets: the part of the channel's history that its filter reaches and
what it has to say about it, or an error; and whether the emission fails. -/
structure Poll where
  outcome : Except Text (Nat × Nat × List Text × List EvtxCoverageGap)
  emitError : Option Text

structure PollingTail where
  memory : KeyMemory PollingIdentity := {}
  providerGapDedup : KeyMemory ProviderGapKey := {}
  firstPoll : Bool := true
  tail : TailState EvtxRecord := {}

/-- The newest records of a part of the history that match, no more than a batch. -/
def queryChannel (history : List EvtxRecord) (isMatch : EvtxRecord → Bool) (first last : Nat)
    (diagnostics : List Text) (providerGaps : List EvtxCoverageGap) : ChannelScan :=
  let records :=
    (((history.take last).drop first).filter isMatch).reverse.take eventFetchBatch
  { records
    delivered := records.length
    gaps := diagnostics.foldl pushBoundedTailCoverageGap []
    providerGaps }

def saturationGap (channel : Text) : Text :=
  channel ++ ": the polling window returned its full ".toList ++ decimal eventFetchBatch ++
    "-record batch; events written between polls may be missing".toList

def failureGap (channel error : Text) : Text := channel ++ ": ".toList ++ error

/-- How many identities may be remembered, and how many are forgotten past that. -/
def maxSeen : Nat := 8192

def evictedSeen : Nat := 4096

section Worker

variable (hash : HashedPayload → UInt64) (toLowercase : Text → Text) (channel fallbackGap : Text)

/-- What a poll that was answered has to say, its own diagnostics first. -/
def pollingGaps (tail : PollingTail) (scan : ChannelScan) (kept : List EvtxCoverageGap) :
    List Text :=
  let coverageGaps := (kept.map formatProviderGap).foldl pushBoundedTailCoverageGap scan.gaps
  let coverageGaps :=
    if scan.delivered ≥ eventFetchBatch then
      pushBoundedTailCoverageGap coverageGaps (saturationGap channel)
    else coverageGaps
  let coverageGaps :=
    if tail.firstPoll ∧ fallbackGap ≠ [] then pushBoundedTailCoverageGap coverageGaps fallbackGap
    else coverageGaps
  mergeTailCoverageGaps tail.tail.coverageGaps coverageGaps

def emitNext (state : TailState EvtxRecord) (records : List EvtxRecord) (coverageGaps : List Text)
    (error : Option Text) : TailState EvtxRecord :=
  emitTailEvent channel { state with sequence := (state.sequence + 1) % 2 ^ 64 }
    ⟨state.sequence, records, coverageGaps⟩ error

def onScan (tail : PollingTail) (scan : ChannelScan) (emitError : Option Text) : PollingTail :=
  let retained := tail.memory.retain (pollingRecordIdentity hash) scan.records
  let kept := keepProviderGaps toLowercase tail.providerGapDedup scan.providerGaps
  let coverageGaps := pollingGaps channel fallbackGap tail scan kept.2
  { memory := retained.1.trim maxSeen evictedSeen
    providerGapDedup := kept.1
    firstPoll := false
    tail :=
      if retained.2 = [] ∧ coverageGaps = [] then tail.tail
      else emitNext channel tail.tail retained.2 coverageGaps emitError }

def poll (history : List EvtxRecord) (isMatch : EvtxRecord → Bool) (tail : PollingTail)
    (p : Poll) : PollingTail :=
  match p.outcome with
  | .ok (first, last, diagnostics, providerGaps) =>
    onScan hash toLowercase channel fallbackGap tail
      (queryChannel history isMatch first last diagnostics providerGaps) p.emitError
  | .error error =>
    { tail with
      tail := emitNext channel tail.tail [] [failureGap channel error] p.emitError }

def runPolls (history : List EvtxRecord) (isMatch : EvtxRecord → Bool) (polls : List Poll) :
    PollingTail :=
  polls.foldl (poll hash toLowercase channel fallbackGap history isMatch) {}

end Worker

end LiveTail
end CmTrace
